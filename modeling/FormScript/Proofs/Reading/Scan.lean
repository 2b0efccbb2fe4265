import FormScript.Proofs.Reading.Lookahead
import FormScript.Reading.Program

/-!
# Scanning a text

`Cursor.scan` is the loop of `Reader.readAll` on cursors: it reads expressions up to the end of the
text or to the first fault. `Reader.readAll` gives the same expressions at the same places, stops at
the same place, and reports the fault under the name of its source (`readAll_scan`). For a source that
holds its text whole the name never changes (`readAll_ofText`).
-/

namespace FormScript

/-! ## Brackets and gaps in front of the reader -/

namespace Bracket

@[simp] theorem ofOpening?_opening (b : Bracket) : ofOpening? b.opening = some b := by
  cases b <;> decide

@[simp] theorem ofOpening?_closing (b : Bracket) : ofOpening? b.closing = none := by
  cases b <;> decide

@[simp] theorem ofClosing?_closing (b : Bracket) : ofClosing? b.closing = some b := by
  cases b <;> decide

theorem not_beginsGap_opening (b : Bracket) (cs : List Char) : beginsGap (b.opening :: cs) = false := by
  cases b <;> simp only [beginsGap, opening] <;> decide

theorem not_beginsGap_closing (b : Bracket) (cs : List Char) : beginsGap (b.closing :: cs) = false := by
  cases b <;> simp only [beginsGap, closing] <;> decide

theorem standsAlone_closing (b : Bracket) (cs : List Char) : standsAlone (b.closing :: cs) = true := by
  cases b <;> simp only [standsAlone, closing] <;> decide

end Bracket

/-- A gap ends a lone slash. -/
theorem Gap.standsAlone_append {gap cs : List Char} (h : Gap gap)
    (hcs : gap = [] → standsAlone cs = true) : standsAlone (gap ++ cs) = true := by
  cases h with
  | nil => exact hcs rfl
  | blank hc _ => simp [standsAlone, endsSlash, hc]
  | comment _ _ => simp [standsAlone, endsSlash]

theorem standsAlone_newline (cs : List Char) : standsAlone ('\n' :: cs) = true := by
  simp [standsAlone, endsSlash, isBlank_newline]

namespace Cursor

/-- A gap in front of an expression does not matter. -/
theorem readWithin_gap {gap : List Char} (h : Gap gap) (frames : List Frame) (cs : List Char)
    (p : Position) : readWithin frames ⟨gap ++ cs, p⟩ = readWithin frames ⟨cs, p.advance gap⟩ := by
  rw [readWithin_eq, readWithin_eq, h.skipGap_append]

theorem readWithin_opening {frames : List Frame} (hdepth : frames.length < maxNesting) (b : Bracket)
    (cs : List Char) (p : Position) :
    readWithin frames ⟨b.opening :: cs, p⟩
      = readWithin (⟨b, []⟩ :: frames) ⟨cs, p.step b.opening⟩ := by
  have hstep : StepsTo frames ⟨b.opening :: cs, p⟩ _ := StepsTo.opening b.ofOpening?_opening hdepth
  rw [readWithin_eq, skipGap_of_not_begins (b.not_beginsGap_opening cs), hstep.readStep_eq]
  rfl

theorem readWithin_closing (f : Frame) (outer : List Frame) (cs : List Char) (p : Position) :
    readWithin (f :: outer) ⟨f.bracket.closing :: cs, p⟩
      = (ReadStep.deliver f.close outer ⟨cs, p.step f.bracket.closing⟩).run := by
  have hstep : StepsTo (f :: outer) ⟨f.bracket.closing :: cs, p⟩ _ :=
    StepsTo.closing f.bracket.ofOpening?_closing f.bracket.ofClosing?_closing
  rw [readWithin_eq, skipGap_of_not_begins (f.bracket.not_beginsGap_closing cs), hstep.readStep_eq]

end Cursor

/-! ## The scan of a text -/

/-- What reading a text to its end gave. -/
structure Scan where
  items : List Located
  fault : Option ReadFault
  stop : Cursor

namespace Scan

/-- The scan with one more expression in front. -/
def cons (item : Located) (s : Scan) : Scan := { s with items := item :: s.items }

/-- The expressions, in order. -/
def expressions (s : Scan) : List Sexp := s.items.map (·.expression)

end Scan

namespace Cursor

theorem readWithin_skipGap (frames : List Frame) (c : Cursor) :
    c.skipGap.readWithin frames = c.readWithin frames := by
  rw [readWithin_eq, readWithin_eq, skipGap_skipGap]

/-- Reads expressions up to the end of the text or to the first fault. -/
def scan (c : Cursor) : Scan :=
  match _h : c.readWithin [] with
  | (.error fault, stop) => ⟨[], some fault, stop⟩
  | (.ok none, stop) => ⟨[], none, stop⟩
  | (.ok (some e), stop) => stop.scan.cons ⟨e, c.skipGap.position, stop.position⟩
termination_by c.rest.length
decreasing_by
  have hok : (c.readWithin []).1 = .ok (some e) := by rw [_h]
  have hlt := readWithin_length_lt hok
  rw [_h] at hlt
  exact hlt

theorem scan_of_error {c stop : Cursor} {fault : ReadFault}
    (h : c.readWithin [] = (.error fault, stop)) : c.scan = ⟨[], some fault, stop⟩ := by
  rw [scan]
  split <;> simp_all

theorem scan_of_none {c stop : Cursor} (h : c.readWithin [] = (.ok none, stop)) :
    c.scan = ⟨[], none, stop⟩ := by
  rw [scan]
  split <;> simp_all

theorem scan_of_some {c stop : Cursor} {e : Sexp} (h : c.readWithin [] = (.ok (some e), stop)) :
    c.scan = stop.scan.cons ⟨e, c.skipGap.position, stop.position⟩ := by
  rw [scan]
  split <;> simp_all

/-- Gaps in front of a text do not change what is read from it. -/
theorem scan_congr {c d : Cursor} (h : c.skipGap = d.skipGap) : c.scan = d.scan := by
  have hrun : c.readWithin [] = d.readWithin [] := by rw [readWithin_eq, readWithin_eq, h]
  cases hd : d.readWithin [] with
  | mk outcome stop =>
    rw [hd] at hrun
    match outcome with
    | .error fault => rw [scan_of_error hrun, scan_of_error hd]
    | .ok none => rw [scan_of_none hrun, scan_of_none hd]
    | .ok (some e) => rw [scan_of_some hrun, scan_of_some hd, h]

/-! ## Groups and the end of the text -/

/-- A step that goes on does so inside a group. -/
theorem frames_ne_nil_of_more {frames frames' : List Frame} {c next : Cursor}
    (h : readStep frames c = .more frames' next) : frames' ≠ [] := by
  have hstep := readStep_stepsTo frames c
  rw [h] at hstep
  generalize hs : ReadStep.more frames' next = s at hstep
  cases hstep with
  | @atEnd frames p => cases frames <;> cases hs
  | opening => cases hs; simp
  | tooDeep => cases hs
  | @closing f outer => cases outer <;> cases hs; simp
  | unexpected => cases hs
  | @atom frames => cases frames <;> cases hs; simp
  | cutOff => cases hs

/-- What is read inside a group is a group. -/
theorem group_of_done {frames : List Frame} (hne : frames ≠ []) {c stop : Cursor}
    {result : Option Sexp} (h : readStep frames c = .done (.ok result) stop) :
    ∃ b items, result = some (.group b items) := by
  have hstep := readStep_stepsTo frames c
  rw [h] at hstep
  generalize hs : ReadStep.done (.ok result) stop = s at hstep
  cases hstep with
  | @atEnd frames p => cases frames <;> cases hs; exact absurd rfl hne
  | opening => cases hs
  | tooDeep => cases hs
  | @closing f outer =>
    cases outer with
    | nil => cases hs; exact ⟨f.bracket, f.items.reverse, rfl⟩
    | cons g outer => cases hs
  | unexpected => cases hs
  | @atom frames =>
    cases frames with
    | nil => exact absurd rfl hne
    | cons f outer => cases hs
  | cutOff => cases hs

/-- **A run inside a group gives a group.** -/
theorem group_of_readWithin {frames : List Frame} (hne : frames ≠ []) {c stop : Cursor}
    {result : Option Sexp} (h : c.readWithin frames = (.ok result, stop)) :
    ∃ b items, result = some (.group b items) := by
  induction frames, c using readWithin.induct with
  | case1 frames c outcome stop' hstep =>
    rw [readWithin_eq, hstep] at h
    cases h
    exact group_of_done hne hstep
  | case2 frames c frames' next hstep ih =>
    rw [readWithin_eq, hstep] at h
    exact ih (frames_ne_nil_of_more hstep) h

/-- **The reader finds no expression only at the end of the text.** -/
theorem readWithin_none {c stop : Cursor} (h : c.readWithin [] = (.ok none, stop)) :
    stop = c.skipGap ∧ c.skipGap.rest = [] := by
  rw [readWithin_eq] at h
  have hstep := readStep_stepsTo [] c.skipGap
  generalize hc : c.skipGap = d at h hstep
  generalize hs : readStep [] d = s at h hstep
  cases hstep with
  | atEnd => cases h; exact ⟨rfl, rfl⟩
  | opening hopen hdepth =>
    -- inside the group that opens here, the run ends with a group or with a fault
    obtain ⟨b, items, hresult⟩ := group_of_readWithin (by simp) h
    cases hresult
  | tooDeep => cases h
  | unexpected => cases h
  | atom => cases h
  | cutOff => cases h

theorem readWithin_nil_of_skipGap {c : Cursor} (h : c.skipGap.rest = []) :
    c.readWithin [] = (.ok none, c.skipGap) := by
  rw [readWithin_eq]
  generalize c.skipGap = d at h
  obtain ⟨rest, p⟩ := d
  have hrest : rest = [] := h
  subst hrest
  rfl

/-- An expression begins at some character. -/
theorem skipGap_ne_nil_of_some {c stop : Cursor} {e : Sexp}
    (h : c.readWithin [] = (.ok (some e), stop)) : c.skipGap.rest ≠ [] := by
  intro hnil
  rw [readWithin_nil_of_skipGap hnil] at h
  cases h

/-- Where nothing is left, nothing is at fault. -/
theorem rest_ne_nil_of_fault {c : Cursor} {fault : ReadFault} (h : c.scan.fault = some fault) :
    c.rest ≠ [] := by
  intro hnil
  rw [scan_of_none (readWithin_nil_of_skipGap (skipGap_rest_nil hnil))] at h
  cases h

/-- **A scan without a fault ends at the end of the text.** -/
theorem scan_end {c : Cursor} (h : c.scan.fault = none) :
    c.scan.stop = ⟨[], c.position.advance c.rest⟩ := by
  induction c using scan.induct with
  | case1 c fault stop hrun =>
    rw [scan_of_error hrun] at h
    cases h
  | case2 c stop hrun =>
    rw [scan_of_none hrun]
    obtain ⟨rfl, hnil⟩ := readWithin_none hrun
    obtain ⟨taken, hrest, hpos⟩ := c.skipGap_reaches
    rw [hnil, List.append_nil] at hrest
    rw [hrest]
    exact (Cursor.mk.injEq _ _ _ _).mpr ⟨hnil, hpos⟩
  | case3 c e stop hrun ih =>
    rw [scan_of_some hrun] at h ⊢
    obtain ⟨taken, hrest, hpos⟩ := readWithin_reaches [] c
    rw [hrun] at hrest hpos
    have hstop : stop.scan.stop = ⟨[], stop.position.advance stop.rest⟩ := ih h
    rw [hrest, Position.advance_append, ← hpos]
    exact hstop

/-- The first expression of a longer text. -/
theorem scan_extend_of_some {c stop : Cursor} {e : Sexp} {t : List Char}
    (h : c.readWithin [] = (.ok (some e), stop)) (ht : MayFollow stop.rest (stop.rest ++ t)) :
    (c.extend t).scan = (stop.extend t).scan.cons ⟨e, c.skipGap.position, stop.position⟩ := by
  rw [scan_of_some (readWithin_extend h ht), skipGap_extend (skipGap_ne_nil_of_some h) t]
  rfl

end Cursor

/-! ## Readers -/

namespace Source

/-- A source that holds its text whole. -/
def Whole (s : Source) : Prop := s.kind = .text ∧ s.pending = []

theorem advance_whole {s : Source} (h : s.Whole) :
    s.advance.Whole ∧ s.advance.pulled = s.pulled := by
  obtain ⟨hkind, hpending⟩ := h
  unfold advance
  split
  · exact ⟨⟨hkind, hpending⟩, rfl⟩
  · rename_i ha hp
    exact ⟨⟨hkind, rfl⟩, by simp [pulled, ha]⟩
  · rename_i ha hp
    rw [hpending] at hp
    cases hp
  · rename_i ha
    refine ⟨⟨hkind, hpending⟩, ?_⟩
    simp only [pulled, ha, List.length_cons]
    omega

/-- **A source that holds its text whole keeps its name.** -/
theorem advanceBy_describe {s : Source} (h : s.Whole) (n : Nat) :
    (s.advanceBy n).Whole ∧ (s.advanceBy n).describe = s.describe := by
  induction n generalizing s with
  | zero => exact ⟨h, rfl⟩
  | succ n ih =>
    obtain ⟨hwhole, hpulled⟩ := advance_whole h
    obtain ⟨hnext, hdescribe⟩ := ih hwhole
    refine ⟨hnext, ?_⟩
    rw [advanceBy, hdescribe]
    simp only [describe, hwhole.1, h.1, hpulled]

end Source

namespace Reader

/-- What `read` does, in terms of the cursor of the source. -/
theorem read_eq (r : Reader) :
    ∃ n, (r.source.advanceBy n).cursor = (r.source.cursor.readWithin []).2
      ∧ r.read = ((r.source.cursor.readWithin []).1.mapError
            fun fault => .ofFault fault (r.source.advanceBy n).describe,
          ⟨r.source.advanceBy n, r.source.cursor.skipGap.position⟩) := by
  have hcursor := r.read_cursor
  rw [read_eq_moveTo] at hcursor ⊢
  simp only [Cursor.readExpression, Cursor.readWithin_skipGap] at hcursor ⊢
  exact ⟨_, hcursor, rfl⟩

/-- A failed reading is a faulty run on the text. -/
theorem read_error {r after : Reader} {error : ReadError} (h : r.read = (.error error, after)) :
    ∃ n fault, after.source = r.source.advanceBy n
      ∧ r.source.cursor.readWithin [] = (.error fault, after.source.cursor)
      ∧ error = .ofFault fault after.source.describe := by
  obtain ⟨n, hcursor, heq⟩ := r.read_eq
  rw [h] at heq
  cases hrun : r.source.cursor.readWithin [] with
  | mk outcome stop =>
    rw [hrun] at heq hcursor
    cases outcome with
    | ok result => cases heq
    | error fault =>
      cases heq
      exact ⟨n, fault, rfl, by rw [hcursor], rfl⟩

/-- A reading that succeeds is a run on the text that does. -/
theorem read_ok {r after : Reader} {result : Option Sexp} (h : r.read = (.ok result, after)) :
    ∃ n, after.source = r.source.advanceBy n
      ∧ r.source.cursor.readWithin [] = (.ok result, after.source.cursor)
      ∧ after.tokenStart = r.source.cursor.skipGap.position := by
  obtain ⟨n, hcursor, heq⟩ := r.read_eq
  rw [h] at heq
  cases hrun : r.source.cursor.readWithin [] with
  | mk outcome stop =>
    rw [hrun] at heq hcursor
    cases outcome with
    | error fault => cases heq
    | ok result' =>
      cases heq
      exact ⟨n, rfl, by rw [hcursor], rfl⟩

theorem readAll_of_error {r after : Reader} {error : ReadError} (h : r.read = (.error error, after)) :
    r.readAll = ⟨[], some error, after⟩ := by
  rw [readAll]
  split <;> simp_all

theorem readAll_of_none {r after : Reader} (h : r.read = (.ok none, after)) :
    r.readAll = ⟨[], none, after⟩ := by
  rw [readAll]
  split <;> simp_all

theorem readAll_of_some {r after : Reader} {e : Sexp} (h : r.read = (.ok (some e), after)) :
    r.readAll = { after.readAll with
      items := ⟨e, after.tokenStart, after.position⟩ :: after.readAll.items } := by
  rw [readAll]
  split <;> simp_all

/-- **Reading a source to its end is scanning its text.** -/
theorem readAll_scan (r : Reader) :
    ∃ n, r.readAll.reader.source = r.source.advanceBy n
      ∧ r.readAll.items = r.source.cursor.scan.items
      ∧ r.readAll.reader.source.cursor = r.source.cursor.scan.stop
      ∧ r.readAll.error = r.source.cursor.scan.fault.map
          fun fault => .ofFault fault r.readAll.reader.source.describe := by
  induction r using readAll.induct with
  | case1 r error after hread =>
    obtain ⟨n, fault, hsource, hrun, rfl⟩ := read_error hread
    rw [readAll_of_error hread, Cursor.scan_of_error hrun]
    exact ⟨n, hsource, rfl, rfl, rfl⟩
  | case2 r after hread =>
    obtain ⟨n, hsource, hrun, _⟩ := read_ok hread
    rw [readAll_of_none hread, Cursor.scan_of_none hrun]
    exact ⟨n, hsource, rfl, rfl, rfl⟩
  | case3 r e after hread ih =>
    -- the source moves by `n` for this expression and by `m` for the others
    obtain ⟨n, hsource, hrun, hstart⟩ := read_ok hread
    obtain ⟨m, hlast, hitems, hstop, herror⟩ := ih
    rw [readAll_of_some hread, Cursor.scan_of_some hrun]
    refine ⟨n + m, ?_, ?_, hstop, herror⟩
    · rw [← Source.advanceBy_advanceBy, ← hsource]
      exact hlast
    · simp only [Scan.cons, hitems, hstart]
      rfl

/-- How a source that holds `text` whole names itself. -/
def textName (text : String) : String := "<text " ++ toString text.length ++ " chars>"

/-- **Reading a text to its end is scanning it**; a fault is reported under the name of the text. -/
theorem readAll_ofText (text : String) :
    (ofText text).readAll.items = (Cursor.ofText text.toList).scan.items
      ∧ (ofText text).readAll.reader.source.cursor = (Cursor.ofText text.toList).scan.stop
      ∧ (ofText text).readAll.error = (Cursor.ofText text.toList).scan.fault.map
          fun fault => .ofFault fault (textName text) := by
  obtain ⟨n, hsource, hitems, hstop, herror⟩ := (ofText text).readAll_scan
  have hwhole : (ofText text).source.Whole := ⟨rfl, rfl⟩
  have hname : (ofText text).source.describe = textName text := by
    simp only [ofText, ofSource, Source.ofText, Source.describe, Source.pulled, textName,
      List.length_nil, Nat.zero_add, String.length_toList]
  rw [hsource, (Source.advanceBy_describe hwhole n).2, hname] at herror
  exact ⟨hitems, hstop, herror⟩

end Reader

end FormScript
