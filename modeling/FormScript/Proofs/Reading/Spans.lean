import FormScript.Proofs.Reading.Relocation
import FormScript.Proofs.Reading.Scan

/-!
# Spans

Every expression that is read occupies the characters between the place where it begins and the place
where the reader stands afterwards. `Partition` says that such spans follow each other through a text
with nothing but gaps between them, and that each of them, cut out of the text, reads as its expression.
Scanning gives a partition (`scan_partition`); `SpansSound` is what it means for the offsets that a
reader reports.
-/

namespace FormScript

namespace Cursor

/-! ## The span of one expression -/

/-- An expression is read behind a gap, from at least one character. -/
theorem readWithin_span {c stop : Cursor} {e : Sexp} (h : c.readWithin [] = (.ok (some e), stop)) :
    ∃ gap lexeme, Gap gap ∧ lexeme ≠ [] ∧ c.rest = gap ++ c.skipGap.rest
      ∧ c.skipGap.position = c.position.advance gap ∧ c.skipGap.rest = lexeme ++ stop.rest
      ∧ stop.position = c.skipGap.position.advance lexeme := by
  obtain ⟨gap, hgapRest, hgapPos, _, hgap⟩ := c.skipGap_split
  have hown : c.skipGap.readWithin [] = (.ok (some e), stop) := by
    rw [readWithin_skipGap]
    exact h
  have hreach := readWithin_reaches [] c.skipGap
  have hok : (c.skipGap.readWithin []).1 = .ok (some e) := by rw [hown]
  have hlt := readWithin_length_lt hok
  rw [hown] at hreach hlt
  obtain ⟨lexeme, hne, hrest, hpos⟩ := hreach.split hlt
  exact ⟨gap, lexeme, hgap (skipGap_ne_nil_of_some h), hne, hgapRest, hgapPos, hrest, hpos⟩

/-- **The text of a span reads by itself as the expression**, unless it holds a marker. -/
theorem readWithin_alone {c stop : Cursor} {e : Sexp} {lexeme : List Char}
    (h : c.readWithin [] = (.ok (some e), stop)) (hlexeme : c.skipGap.rest = lexeme ++ stop.rest)
    (hline : (ofText lexeme).meets lineMarker [] = false)
    (hcolumn : (ofText lexeme).meets columnMarker [] = false) :
    (ofText lexeme).readWithin [] = (.ok (some e), ⟨[], Position.start.advance lexeme⟩) := by
  have hown : c.skipGap.readWithin [] = (.ok (some e), stop) := by
    rw [readWithin_skipGap]
    exact h
  -- first the text behind the span goes, then the span moves to the beginning of a text
  have hcut := readWithin_swap hlexeme hown (show MayFollow stop.rest [] from Or.inr rfl)
  rw [List.append_nil] at hcut
  have hpar := Parallel.refl lexeme c.skipGap.position Position.start
  obtain ⟨hvalue, hstop⟩ := readWithin_relocate hpar
    (fun hmeets => absurd (hline.symm.trans hmeets) (by simp))
    (fun hmeets => absurd (hcolumn.symm.trans hmeets) (by simp))
  rw [hcut] at hvalue hstop
  obtain ⟨taken, htaken, hpos⟩ := readWithin_reaches [] (ofText lexeme)
  have hnil : ((ofText lexeme).readWithin []).2.rest = [] := hstop.1
  rw [hnil, List.append_nil] at htaken
  refine Prod.ext hvalue ?_
  show ((ofText lexeme).readWithin []).2 = _
  rw [show lexeme = taken from htaken] at hnil hpos ⊢
  exact (Cursor.mk.injEq _ _ _ _).mpr ⟨hnil, hpos⟩

end Cursor

/-- A text that is read as the expression `e` and nothing else, unless it holds a marker. -/
def ReadsAlone (lexeme : List Char) (e : Sexp) : Prop :=
  (Cursor.ofText lexeme).meets lineMarker [] = false →
  (Cursor.ofText lexeme).meets columnMarker [] = false →
    (Reader.ofText (String.ofList lexeme)).readAll.items
        = [⟨e, .start, Position.start.advance lexeme⟩]
      ∧ (Reader.ofText (String.ofList lexeme)).readAll.error = none

/-- The span of an expression reads alone. -/
theorem readsAlone_of_readWithin {c stop : Cursor} {e : Sexp} {lexeme : List Char}
    (h : c.readWithin [] = (.ok (some e), stop)) (hlexeme : c.skipGap.rest = lexeme ++ stop.rest)
    (hne : lexeme ≠ []) : ReadsAlone lexeme e := by
  intro hline hcolumn
  have halone := Cursor.readWithin_alone h hlexeme hline hcolumn
  obtain ⟨first, lexeme, rfl⟩ := List.exists_cons_of_ne_nil hne
  have hbegins := c.not_begins_skipGap
  rw [hlexeme] at hbegins
  have hgap : (Cursor.ofText (first :: lexeme)).skipGap = Cursor.ofText (first :: lexeme) :=
    Cursor.skipGap_of_not_begins hbegins
  have hend : Cursor.readWithin [] ⟨[], Position.start.advance (first :: lexeme)⟩
      = (.ok none, ⟨[], Position.start.advance (first :: lexeme)⟩) :=
    Cursor.readWithin_nil_of_skipGap rfl
  obtain ⟨hitems, _, herror⟩ := Reader.readAll_ofText (String.ofList (first :: lexeme))
  rw [String.toList_ofList, Cursor.scan_of_some halone, Cursor.scan_of_none hend, hgap]
    at hitems herror
  exact ⟨hitems, herror⟩

/-! ## Partitions -/

/-- `items` are expressions read one after the other from a text that begins at the first cursor, with
    gaps in front of them; the second cursor is behind the last one. -/
inductive Partition : Cursor → List Located → Cursor → Prop where
  | nil {c : Cursor} : Partition c [] c
  | cons {c stop last : Cursor} {gap lexeme : List Char} {start : Cursor} {e : Sexp}
      {items : List Located} : Gap gap → lexeme ≠ [] →
      c.rest = gap ++ start.rest → start.position = c.position.advance gap →
      start.rest = lexeme ++ stop.rest → stop.position = start.position.advance lexeme →
      ReadsAlone lexeme e → Partition stop items last →
      Partition c (⟨e, start.position, stop.position⟩ :: items) last

/-- **Scanning partitions the text.** When nothing stops it, only a gap is left behind the last
    expression. -/
theorem Cursor.scan_partition (c : Cursor) :
    ∃ last, Partition c c.scan.items last
      ∧ (c.scan.fault = none → LastGap last.rest) := by
  induction c using scan.induct with
  | case1 c fault stop hrun =>
    rw [scan_of_error hrun]
    exact ⟨c, Partition.nil, fun hnone => by cases hnone⟩
  | case2 c stop hrun =>
    rw [scan_of_none hrun]
    obtain ⟨gap, hrest, _, hgap, _⟩ := c.skipGap_split
    rw [(readWithin_none hrun).2, List.append_nil] at hrest
    exact ⟨c, Partition.nil, fun _ => hrest ▸ hgap⟩
  | case3 c e stop hrun ih =>
    rw [scan_of_some hrun]
    obtain ⟨last, hitems, hlast⟩ := ih
    obtain ⟨gap, lexeme, hgap, hne, hrest, hstart, hlexeme, hstop⟩ := readWithin_span hrun
    exact ⟨last, Partition.cons hgap hne hrest hstart hlexeme hstop
      (readsAlone_of_readWithin hrun hlexeme hne) hitems, hlast⟩

/-! ## Offsets -/

/-- The characters of a text from one place to another. -/
def slice (text : List Char) (i j : Position) : List Char :=
  (text.drop i.offset).take (j.offset - i.offset)

/-- Where the last of some expressions ends; `p` if there is none. -/
def endOf (p : Position) : List Located → Position
  | [] => p
  | item :: items => endOf item.stop items

/-- A cursor at the place of a text that its offset names. -/
structure Cursor.In (text : List Char) (c : Cursor) : Prop where
  rest_eq : c.rest = text.drop c.position.offset
  offset_le : c.position.offset ≤ text.length

/-- The offset counts what is passed of a text, the rest is what is left. -/
theorem Cursor.In.offset_add {text : List Char} {c : Cursor} (h : c.In text) :
    c.position.offset + c.rest.length = text.length := by
  have hlength := congrArg List.length h.rest_eq
  rw [List.length_drop] at hlength
  have hle := h.offset_le
  omega

/-- Moving over characters stays in the text and cuts them out of it. -/
theorem Cursor.In.move {text x : List Char} {c d : Cursor} (h : c.In text)
    (hrest : c.rest = x ++ d.rest) (hpos : d.position = c.position.advance x) :
    d.In text ∧ slice text c.position d.position = x
      ∧ d.position.offset = c.position.offset + x.length := by
  have hoffset : d.position.offset = c.position.offset + x.length := by
    rw [hpos, Position.advance_offset]
  have hdrop : text.drop c.position.offset = x ++ d.rest := by rw [← h.rest_eq, hrest]
  have hlength := h.offset_add
  rw [hrest, List.length_append] at hlength
  refine ⟨⟨?_, by omega⟩, ?_, hoffset⟩
  · rw [hoffset, ← List.drop_drop, hdrop, List.drop_left]
  · unfold slice
    rw [hoffset, Nat.add_sub_cancel_left, hdrop, List.take_left]

/-- What is left at a cursor is the slice from there to the end of the text. -/
theorem slice_to_end {text : List Char} {c : Cursor} {j : Position} (h : c.In text)
    (hj : j.offset = text.length) : slice text c.position j = c.rest := by
  unfold slice
  rw [hj, h.rest_eq]
  exact List.take_of_length_le (Nat.le_of_eq List.length_drop)

namespace Partition

variable {text : List Char} {c last : Cursor} {items : List Located}

/-- Every span lies behind the cursor and in the text, holds a character and reads alone. -/
theorem span_of_mem (h : Partition c items last) (hc : c.In text) :
    ∀ item ∈ items, c.position.offset ≤ item.start.offset ∧ item.start.offset < item.stop.offset
      ∧ item.stop.offset ≤ text.length
      ∧ ReadsAlone (slice text item.start item.stop) item.expression := by
  induction h with
  | nil => simp
  | @cons c stop last gap lexeme start e items _ hne hgap hstart hlexeme hstop halone _ ih =>
    obtain ⟨hin, _, hoffset⟩ := hc.move hgap hstart
    obtain ⟨hin', hslice, hoffset'⟩ := hin.move hlexeme hstop
    have hpos : 0 < lexeme.length := List.length_pos_iff.mpr hne
    intro item hitem
    rcases List.mem_cons.mp hitem with rfl | hitem
    · show c.position.offset ≤ start.position.offset ∧ start.position.offset < stop.position.offset
        ∧ stop.position.offset ≤ text.length ∧ ReadsAlone (slice text start.position stop.position) e
      rw [hslice]
      exact ⟨by omega, by omega, hin'.offset_le, halone⟩
    · obtain ⟨hbehind, hrest⟩ := ih hin' item hitem
      exact ⟨by omega, hrest⟩

/-- The spans do not overlap and stand in order. -/
theorem pairwise (h : Partition c items last) (hc : c.In text) :
    items.Pairwise fun a b => a.stop.offset ≤ b.start.offset := by
  induction h with
  | nil => exact List.Pairwise.nil
  | @cons c stop last gap lexeme start e items _ _ hgap hstart hlexeme hstop _ hitems ih =>
    have hin := ((hc.move hgap hstart).1.move hlexeme hstop).1
    exact List.Pairwise.cons (fun item hitem => (hitems.span_of_mem hin item hitem).1) (ih hin)

/-- In front of every span there is a gap. -/
theorem gap_before (h : Partition c items last) (hc : c.In text) {before after : List Located}
    {item : Located} (hitem : items = before ++ item :: after) :
    Gap (slice text (endOf c.position before) item.start) := by
  induction h generalizing before with
  | nil => simp at hitem
  | @cons c stop last gap lexeme start e items hgap _ hgapRest hstart hlexeme hstop _ _ ih =>
    obtain ⟨hin, hslice, _⟩ := hc.move hgapRest hstart
    cases before with
    | nil =>
      obtain ⟨rfl, _⟩ := List.cons.inj hitem
      exact hslice.symm ▸ hgap
    | cons first before =>
      obtain ⟨rfl, hrest⟩ := List.cons.inj hitem
      exact ih (hin.move hlexeme hstop).1 hrest

/-- The last cursor stands where the last span ends. -/
theorem last_in (h : Partition c items last) (hc : c.In text) :
    last.In text ∧ last.position = endOf c.position items := by
  induction h with
  | nil => exact ⟨hc, rfl⟩
  | cons _ _ hgap hstart hlexeme hstop _ _ ih =>
    exact ih ((hc.move hgap hstart).1.move hlexeme hstop).1

/-- There are no more spans than characters. -/
theorem length_le (h : Partition c items last) : items.length ≤ c.rest.length := by
  induction h with
  | nil => exact Nat.zero_le _
  | @cons c stop last gap lexeme start e items _ hne hgap _ hlexeme _ _ _ ih =>
    have hpos : 0 < lexeme.length := List.length_pos_iff.mpr hne
    rw [hgap, hlexeme, List.length_append, List.length_append, List.length_cons]
    omega

end Partition

/-- What the places in a program say about the text it was read from. -/
structure SpansSound (text : String) (p : Program) : Prop where
  /-- Every span holds a character. -/
  nonempty : ∀ item ∈ p.items, item.start.offset < item.stop.offset
  /-- Every span lies in the text. -/
  within : ∀ item ∈ p.items, item.stop.offset ≤ text.length
  /-- The spans do not overlap and stand in order. -/
  increasing : p.items.Pairwise fun a b => a.stop.offset ≤ b.start.offset
  /-- From the beginning of the text or the end of one span to the next span there is a gap. -/
  gap_before : ∀ before item after, p.items = before ++ item :: after →
    Gap (slice text.toList (endOf .start before) item.start)
  /-- Behind the last span of a text that is read to its end there is a gap. -/
  gap_last : p.error = none →
    LastGap (slice text.toList (endOf .start p.items) p.reader.position)
  /-- Reading ends without a failure only at the end of the text. -/
  at_end : p.error = none → p.reader.position.offset = text.length ∧ p.reader.rest = []
  /-- A span cut out of the text reads as its expression and nothing else. -/
  alone : ∀ item ∈ p.items, ReadsAlone (slice text.toList item.start item.stop) item.expression
  /-- Reading ends after no more expressions than the text has characters. -/
  bounded : p.items.length ≤ text.length

/-- **The spans of a program are sound**: they partition the text it was read from into expressions and
    gaps. -/
theorem spans_sound (text : String) : SpansSound text (Reader.ofText text).readAll := by
  obtain ⟨hitems, hcursor, herror⟩ := Reader.readAll_ofText text
  obtain ⟨last, hpartition, hlast⟩ := (Cursor.ofText text.toList).scan_partition
  rw [← hitems] at hpartition
  have hin : (Cursor.ofText text.toList).In text.toList := ⟨rfl, Nat.zero_le _⟩
  have hspan := hpartition.span_of_mem hin
  have hlength : text.toList.length = text.length := String.length_toList
  rw [hlength] at hspan
  obtain ⟨hlastIn, hlastPos⟩ := hpartition.last_in hin
  have hend : (Reader.ofText text).readAll.error = none →
      LastGap (slice text.toList last.position (Reader.ofText text).readAll.reader.position)
        ∧ (Reader.ofText text).readAll.reader.position.offset = text.length
        ∧ (Reader.ofText text).readAll.reader.rest = [] := by
    intro hno
    -- the reader stands at the end, so the last slice is all that the last span leaves
    rw [herror, Option.map_eq_none_iff] at hno
    have hstop := hcursor.trans (Cursor.scan_end hno)
    have hoffset : (Reader.ofText text).readAll.reader.position.offset = text.length := by
      have hadvance := congrArg (·.position.offset) hstop
      rw [← hlength, ← Nat.zero_add text.toList.length]
      exact hadvance.trans (Position.advance_offset _ _)
    refine ⟨?_, hoffset, congrArg Cursor.rest hstop⟩
    rw [slice_to_end hlastIn (hoffset.trans hlength.symm)]
    exact hlast hno
  refine ⟨fun item hitem => (hspan item hitem).2.1, fun item hitem => (hspan item hitem).2.2.1,
    hpartition.pairwise hin, fun before item after hsplit => hpartition.gap_before hin hsplit, ?_,
    fun hno => (hend hno).2, fun item hitem => (hspan item hitem).2.2.2, ?_⟩
  · intro hno
    rw [show endOf .start (Reader.ofText text).readAll.items = last.position from hlastPos.symm]
    exact (hend hno).1
  · rw [← hlength]
    exact hpartition.length_le

/-- The call in ` (f /x/g);k`, cut out of the text. -/
theorem spans_sound_call :
    (Reader.ofText "(f /x/g)").readAll.items
        = [⟨.group .round [.symbol "f", .regex "x" "g"], ⟨0, 1, 1⟩, ⟨8, 1, 9⟩⟩]
      ∧ Gap [' '] ∧ LastGap [';', 'k'] := by
  have hitems : (Reader.ofText " (f /x/g);k").readAll.items
      = [⟨.group .round [.symbol "f", .regex "x" "g"], ⟨1, 1, 2⟩, ⟨9, 1, 10⟩⟩] := by
    with_unfolding_all rfl
  have herror : (Reader.ofText " (f /x/g);k").readAll.error = none := by decide +kernel
  have hstop : (Reader.ofText " (f /x/g);k").readAll.reader.position = ⟨11, 1, 12⟩ := by
    decide +kernel
  have hline : (Cursor.ofText "(f /x/g)".toList).meets lineMarker [] = false := by decide +kernel
  have hcolumn : (Cursor.ofText "(f /x/g)".toList).meets columnMarker [] = false := by decide +kernel
  have hsound := spans_sound " (f /x/g);k"
  have hlast := hsound.gap_last herror
  have halone := hsound.alone
  rw [hitems] at halone hlast
  rw [hstop] at hlast
  exact ⟨(halone _ List.mem_cons_self hline hcolumn).1,
    hsound.gap_before [] _ [] hitems, hlast⟩

end FormScript
