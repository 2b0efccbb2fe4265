import Mathlib.Data.List.Induction
import Mathlib.Tactic.SplitIfs
import FormScript.Proofs.Reading.Atoms
import FormScript.Proofs.Reading.Completion
import FormScript.Proofs.Reading.Concatenation

/-!
# Places in a text

A place that the reader reports counts the lines and the columns of its text (`Placed`). `Denotes` is the
grammar of a text, with places: it says which characters are which expression, and that a marker is the
line or the column of its own first character. What is read from a text is denoted by the characters
between the places where it begins and where it ends (`scan_stands`). Where nothing can be read, the
reader stands on the bracket it cannot accept, or at the end of the text (`scan_faultAt`).
-/

namespace FormScript

namespace Bracket

theorem eq_opening {c : Char} {b : Bracket} (h : ofOpening? c = some b) : c = b.opening := by
  unfold ofOpening? at h
  split_ifs at h with hround hsquare hcurly
  · cases h
    exact hround
  · cases h
    exact hsquare
  · cases h
    exact hcurly

theorem eq_closing {c : Char} {b : Bracket} (h : ofClosing? c = some b) : c = b.closing := by
  unfold ofClosing? at h
  split_ifs at h with hround hsquare hcurly
  · cases h
    exact hround
  · cases h
    exact hsquare
  · cases h
    exact hcurly

end Bracket

/-! ## Lines and columns -/

/-- The line of the character at the offset `i`: the line feeds in front of it count from one. -/
def lineAt (text : List Char) (i : Nat) : Nat := 1 + (text.take i).count '\n'

/-- The column of the character at the offset `i`: the characters between it and the last line feed in
    front of it count from one. -/
def columnAt (text : List Char) (i : Nat) : Nat :=
  1 + ((text.take i).reverse.takeWhile (· ≠ '\n')).length

/-- The position names the line and the column of its offset, which lies in the text. -/
structure Placed (text : List Char) (p : Position) : Prop where
  offset_le : p.offset ≤ text.length
  line_eq : p.line = lineAt text p.offset
  column_eq : p.column = columnAt text p.offset

/-- The column counts what follows the last line feed. -/
theorem Position.start_advance_column (cs : List Char) :
    (start.advance cs).column = 1 + (cs.reverse.takeWhile (· ≠ '\n')).length := by
  induction cs using List.reverseRecOn with
  | nil => rfl
  | append_singleton cs c ih =>
    rw [advance_append, advance_cons, advance_nil, List.reverse_append, List.reverse_singleton,
      List.singleton_append]
    by_cases hc : c = '\n'
    · simp [step, hc]
    · have hkeep : decide (c ≠ '\n') = true := decide_eq_true hc
      rw [step, if_neg hc, List.takeWhile_cons, if_pos hkeep, List.length_cons, ih]
      exact Nat.add_assoc _ _ _

namespace Cursor

/-- A cursor that has been moved through a text stands where its position says. -/
theorem Reaches.placed {text : List Char} {c : Cursor} (h : (ofText text).Reaches c) :
    Placed text c.position ∧ text.drop c.position.offset = c.rest := by
  obtain ⟨taken, hrest, hpos⟩ := h
  have htext : text = taken ++ c.rest := hrest
  have hstart : c.position = Position.start.advance taken := hpos
  have hoffset : c.position.offset = taken.length := by
    rw [hstart, Position.advance_offset]
    exact Nat.zero_add _
  have htake : text.take c.position.offset = taken := by rw [hoffset, htext, List.take_left]
  refine ⟨⟨?_, ?_, ?_⟩, ?_⟩
  · rw [hoffset, htext, List.length_append]
    exact Nat.le_add_right _ _
  · rw [lineAt, htake, hstart, Position.advance_line]
    rfl
  · rw [columnAt, htake, hstart, Position.start_advance_column]
  · rw [hoffset, htext, List.drop_left]

end Cursor

/-! ## The grammar of a text -/

/-- The characters of a text from the offset `i` to the offset `k` are the expressions `es`, one after the
    other, with gaps around them. A marker stands for the place of its first character. -/
inductive Denotes (text : List Char) : Nat → List Sexp → Nat → Prop where
  | nil {i : Nat} : Denotes text i [] i
  | gap {i k : Nat} {gap rest : List Char} {es : List Sexp} : text.drop i = gap ++ rest → Gap gap →
      Denotes text (i + gap.length) es k → Denotes text i es k
  | line {i k : Nat} {rest : List Char} {es : List Sexp} : text.drop i = lineMarker.toList ++ rest →
      Longest lineMarker.toList rest → Denotes text (i + lineMarker.length) es k →
      Denotes text i (.number (.ofNat (lineAt text i)) :: es) k
  | column {i k : Nat} {rest : List Char} {es : List Sexp} : text.drop i = columnMarker.toList ++ rest →
      Longest columnMarker.toList rest → Denotes text (i + columnMarker.length) es k →
      Denotes text i (.number (.ofNat (columnAt text i)) :: es) k
  | atom {i k : Nat} {lexeme rest : List Char} {a : Sexp} {es : List Sexp} :
      text.drop i = lexeme ++ rest → Lexeme lexeme a → Longest lexeme rest → Unmarked lexeme →
      Denotes text (i + lexeme.length) es k → Denotes text i (a :: es) k
  | group {i j k : Nat} {b : Bracket} {inner behind : List Char} {items es : List Sexp} :
      text.drop i = b.opening :: inner → Denotes text (i + 1) items j →
      text.drop j = b.closing :: behind → Denotes text (j + 1) es k →
      Denotes text i (.group b items :: es) k

theorem Denotes.append {text : List Char} {i j k : Nat} {es fs : List Sexp} (h : Denotes text i es j)
    (hfs : Denotes text j fs k) : Denotes text i (es ++ fs) k := by
  induction h with
  | nil => exact hfs
  | gap htext hgap _ ih => exact .gap htext hgap (ih hfs)
  | line htext hlong _ ih => exact .line htext hlong (ih hfs)
  | column htext hlong _ ih => exact .column htext hlong (ih hfs)
  | atom htext hlexeme hlong hunmarked _ ih => exact .atom htext hlexeme hlong hunmarked (ih hfs)
  | group hopen hitems hclose _ _ ih => exact .group hopen hitems hclose (ih hfs)

/-! ## Atoms -/

namespace Cursor

/-- A word with the first character of a marker is read as a word. -/
theorem readAtom_underscore {tail : List Char} {p : Position} {a : Sexp} {stop : Cursor}
    (h : readAtom '_' ⟨tail, p⟩ = (.ok a, stop)) :
    ∃ x, tail = x ++ stop.rest ∧ a = wordValue ('_' :: x) stop.position := by
  obtain ⟨x, rest, hx, _, _, hword⟩ := readWord_eq '_' tail p
  have hread : readAtom '_' ⟨tail, p⟩ = readWord '_' ⟨tail, p⟩ := rfl
  rw [hread, hword] at h
  cases h
  exact ⟨x, hx, rfl⟩

/-- **What is read as an atom is denoted by its characters.** -/
theorem readAtom_denotes {text : List Char} {first : Char} {tail : List Char} {p : Position} {a : Sexp}
    {stop : Cursor} (hc : (ofText text).Reaches ⟨first :: tail, p⟩)
    (hopen : Bracket.ofOpening? first = none) (hclose : Bracket.ofClosing? first = none)
    (hgap : beginsGap (first :: tail) = false)
    (h : readAtom first ⟨tail, p.step first⟩ = (.ok a, stop)) :
    Denotes text p.offset [a] stop.position.offset := by
  obtain ⟨⟨_, hline, hcolumn⟩, hdrop⟩ := hc.placed
  obtain ⟨lexeme, hcut, hlexeme, hlong⟩ := readAtom_lexed hopen hclose hgap h
  obtain ⟨x, htail, hpos⟩ := readAtom_reaches first ⟨tail, p.step first⟩
  rw [h] at htail hpos
  have htail' : tail = x ++ stop.rest := htail
  have hstop : stop.position = p.advance (first :: x) := hpos
  have hown : lexeme = first :: x := by
    rw [htail', ← List.cons_append] at hcut
    exact (List.append_cancel_right hcut).symm
  subst hown
  have hoffset : stop.position.offset = p.offset + (first :: x).length := by
    rw [hstop, Position.advance_offset]
  have htext : text.drop p.offset = first :: x ++ stop.rest := hdrop.trans hcut
  -- a marker is a word whose value is found from the place behind it
  have hmarker : first = '_' → a = wordValue (first :: x) stop.position := by
    rintro rfl
    obtain ⟨y, hy, ha⟩ := readAtom_underscore h
    rw [htail'] at hy
    rw [List.append_cancel_right hy]
    exact ha
  by_cases hl : first :: x = lineMarker.toList
  · have hvalue : a = .number (.ofNat (lineAt text p.offset)) := by
      rw [hmarker (List.cons.inj hl).1, hl, hstop, hl, ← hline]
      rfl
    rw [hl] at htext hlong hoffset
    rw [hvalue, hoffset]
    exact .line htext hlong .nil
  · by_cases hcol : first :: x = columnMarker.toList
    · have hvalue : a = .number (.ofNat (columnAt text p.offset)) := by
        rw [hmarker (List.cons.inj hcol).1, hcol, hstop, hcol, ← hcolumn]
        rfl
      rw [hcol] at htext hlong hoffset
      rw [hvalue, hoffset]
      exact .column htext hlong .nil
    · rw [hoffset]
      exact .atom htext hlexeme hlong ⟨hl, hcol⟩ .nil

end Cursor

/-! ## Groups that are open -/

/-- The characters of a text from `start` to the offset `k` are the beginning of an expression: each group
    that is open begins at its bracket and holds the elements read so far. -/
inductive Opened (text : List Char) (start : Nat) : List Frame → Nat → Prop where
  | outside {k : Nat} : Denotes text start [] k → Opened text start [] k
  | inside {f : Frame} {outer : List Frame} {i k : Nat} {inner : List Char} : Opened text start outer i →
      text.drop i = f.bracket.opening :: inner → Denotes text (i + 1) f.items.reverse k →
      Opened text start (f :: outer) k

/-- What a step from `start` on leads to is denoted by the characters up to its cursor. -/
def StepDenotes (text : List Char) (start : Nat) : ReadStep Cursor → Prop
  | .done (.ok (some e)) stop => Denotes text start [e] stop.position.offset
  | .done _ _ => True
  | .more frames next => Opened text start frames next.position.offset

namespace Opened

variable {text : List Char} {start : Nat}

theorem gap {frames : List Frame} {k : Nat} {gap rest : List Char} (h : Opened text start frames k)
    (htext : text.drop k = gap ++ rest) (hgap : Gap gap) :
    Opened text start frames (k + gap.length) := by
  have hdenotes : Denotes text k [] (k + gap.length) := .gap htext hgap .nil
  cases h with
  | outside hbefore => exact .outside (hbefore.append hdenotes)
  | inside houter hopen hitems =>
    have hsame := hitems.append hdenotes
    rw [List.append_nil] at hsame
    exact .inside houter hopen hsame

/-- An expression goes into the innermost group, or is the result. -/
theorem deliver {frames : List Frame} {k : Nat} {e : Sexp} {stop : Cursor}
    (h : Opened text start frames k) (he : Denotes text k [e] stop.position.offset) :
    StepDenotes text start (ReadStep.deliver e frames stop) := by
  cases h with
  | outside hbefore => exact hbefore.append he
  | @inside f outer i k inner houter hopen hitems =>
    have hpushed : Denotes text (i + 1) (f.push e).items.reverse stop.position.offset := by
      rw [Frame.push, List.reverse_cons]
      exact hitems.append he
    exact .inside (f := f.push e) houter hopen hpushed

end Opened

namespace Cursor

variable {text : List Char} {start : Nat}

/-- One step goes on with the expression. -/
theorem readStep_denotes {frames : List Frame} {c : Cursor} (hc : (ofText text).Reaches c)
    (hopened : Opened text start frames c.position.offset) :
    StepDenotes text start (readStep frames c.skipGap) := by
  obtain ⟨gap, hrest, hpos, _, hgap⟩ := c.skipGap_split
  have hskip := hc.trans c.skipGap_reaches
  have hopened' : c.skipGap.rest ≠ [] → Opened text start frames c.skipGap.position.offset := by
    intro hne
    have htext : text.drop c.position.offset = gap ++ c.skipGap.rest := hc.placed.2.trans hrest
    rw [hpos, Position.advance_offset]
    exact hopened.gap htext (hgap hne)
  have hbegins := c.not_begins_skipGap
  have hstep := readStep_stepsTo frames c.skipGap
  generalize readStep frames c.skipGap = s at hstep
  generalize c.skipGap = d at hskip hopened' hbegins hstep
  have hdrop := hskip.placed.2
  cases hstep with
  | atEnd =>
    cases frames with
    | nil => exact trivial
    | cons f outer => exact trivial
  | @opening _ first tail p b hopen _ =>
    rw [Bracket.eq_opening hopen] at hdrop
    show Opened text start (⟨b, []⟩ :: frames) (p.step first).offset
    rw [Position.step_offset]
    exact .inside (hopened' (by simp)) hdrop .nil
  | tooDeep => exact trivial
  | @closing f outer first tail p _ hclose =>
    rw [Bracket.eq_closing hclose] at hdrop
    cases hopened' (by simp) with
    | @inside _ _ i _ _ houter hopen hitems =>
      have hgroup : Denotes text i [f.close] (p.step first).offset := by
        rw [Position.step_offset]
        exact .group hopen hitems hdrop .nil
      exact houter.deliver hgroup
  | unexpected => exact trivial
  | atom hopen hclose hatom =>
    exact (hopened' (by simp)).deliver (readAtom_denotes hskip hopen hclose hbegins hatom)
  | cutOff => exact trivial

/-- **A run reads what the characters denote**, from where the outermost group begins. -/
theorem readWithin_denotes {frames : List Frame} {c stop : Cursor} {e : Sexp}
    (hc : (ofText text).Reaches c) (hopened : Opened text start frames c.position.offset)
    (h : c.readWithin frames = (.ok (some e), stop)) : Denotes text start [e] stop.position.offset := by
  induction frames, c using readWithin.induct with
  | case1 frames c outcome stop' hstep =>
    have hdenotes := readStep_denotes hc hopened
    rw [readWithin_eq, hstep] at h
    rw [hstep] at hdenotes
    cases h
    exact hdenotes
  | case2 frames c frames' next hstep ih =>
    have hdenotes := readStep_denotes hc hopened
    have hmove := (readStep_cursor frames c.skipGap).1
    rw [readWithin_eq, hstep] at h
    rw [hstep] at hdenotes hmove
    exact ih ((hc.trans c.skipGap_reaches).trans hmove) hdenotes h

end Cursor

/-- The expression stands in the text between the two places: it is denoted by the characters there, and
    begins at the first of them. -/
structure Located.Stands (text : List Char) (item : Located) : Prop where
  start_placed : Placed text item.start
  stop_placed : Placed text item.stop
  not_gap : beginsGap (text.drop item.start.offset) = false
  denotes : Denotes text item.start.offset [item.expression] item.stop.offset

namespace Cursor

variable {text : List Char}

/-- **What a scan gives stands in the text.** -/
theorem scan_stands {c : Cursor} (hc : (ofText text).Reaches c) :
    ∀ item ∈ c.scan.items, item.Stands text := by
  induction c using scan.induct with
  | case1 c fault stop hrun =>
    rw [scan_of_error hrun]
    exact fun _ hitem => absurd hitem List.not_mem_nil
  | case2 c stop hrun =>
    rw [scan_of_none hrun]
    exact fun _ hitem => absurd hitem List.not_mem_nil
  | case3 c e stop hrun ih =>
    rw [scan_of_some hrun]
    have hskip := hc.trans c.skipGap_reaches
    have hstop := hc.trans (readWithin_reaches [] c)
    have hdenotes := readWithin_denotes hskip (.outside .nil) ((c.readWithin_skipGap []).trans hrun)
    rw [hrun] at hstop
    have hitem : Located.Stands text ⟨e, c.skipGap.position, stop.position⟩ := by
      refine ⟨hskip.placed.1, hstop.placed.1, ?_, hdenotes⟩
      show beginsGap (text.drop c.skipGap.position.offset) = false
      rw [hskip.placed.2]
      exact c.not_begins_skipGap
    exact List.forall_mem_cons.mpr ⟨hitem, ih hstop⟩

theorem scan_reaches (c : Cursor) : c.Reaches c.scan.stop := by
  induction c using scan.induct with
  | case1 c fault stop hrun =>
    have hreach := readWithin_reaches [] c
    rw [scan_of_error hrun]
    rwa [hrun] at hreach
  | case2 c stop hrun =>
    have hreach := readWithin_reaches [] c
    rw [scan_of_none hrun]
    rwa [hrun] at hreach
  | case3 c e stop hrun ih =>
    have hreach := readWithin_reaches [] c
    rw [scan_of_some hrun]
    rw [hrun] at hreach
    exact hreach.trans ih

end Cursor

/-! ## Faults -/

/-- The reader stands on the bracket that is at fault, or at the end of the text. -/
def ReadFault.At (rest : List Char) : ReadFault → Prop
  | .unexpectedClosing b => rest.head? = some b.closing
  | .nestedTooDeeply => ∃ b : Bracket, rest.head? = some b.opening
  | .unterminatedString => rest = []
  | .unterminatedRegex => rest = []
  | .unterminatedGroup _ => rest = []

theorem ReadFault.At.incomplete {rest : List Char} {fault : ReadFault} (h : fault.At rest)
    (hseverity : fault.severity = .incomplete) : rest = [] := by
  cases fault with
  | unexpectedClosing b => cases hseverity
  | nestedTooDeeply => cases hseverity
  | unterminatedString => exact h
  | unterminatedRegex => exact h
  | unterminatedGroup b => exact h

/-- Reports of different faults differ. -/
theorem ReadError.ofFault_injective {fault fault' : ReadFault} {context : String}
    (h : ofFault fault context = ofFault fault' context) : fault = fault' := by
  have hmessage : fault.message = fault'.message :=
    String.append_right_inj _ |>.mp (congrArg ReadError.detail h)
  revert hmessage
  rcases fault with ⟨_ | _ | _⟩ | _ | _ | _ | ⟨_ | _ | _⟩ <;>
    rcases fault' with ⟨_ | _ | _⟩ | _ | _ | _ | ⟨_ | _ | _⟩ <;> decide

namespace Cursor

/-- An atom that is cut off is read to the end of the text. -/
theorem readAtom_faultAt {first : Char} {c stop : Cursor} {fault : ReadFault}
    (h : c.readAtom first = (.error fault, stop)) : fault.At stop.rest := by
  obtain ⟨hsplit, ⟨hquote, rfl⟩ | ⟨rfl, hregex, rfl⟩⟩ := readAtom_error h
  · have hread : c.readAtom first = (.error .unterminatedString, c.toEnd) := by
      rw [readAtom, if_pos hquote, readString, hsplit]
    cases h.symm.trans hread
    rfl
  · have hread : c.readAtom '/' = (.error .unterminatedRegex, c.toEnd) := by
      rw [show c.readAtom '/' = c.readSlash from rfl, readSlash_of_opensRegex hregex, readRegex, hsplit]
    cases h.symm.trans hread
    rfl

theorem readStep_faultAt {frames : List Frame} {c stop : Cursor} {fault : ReadFault}
    (h : readStep frames c = .done (.error fault) stop) : fault.At stop.rest := by
  have hstep := readStep_stepsTo frames c
  rw [h] at hstep
  generalize hs : ReadStep.done (.error fault) stop = s at hstep
  cases hstep with
  | @atEnd frames p =>
    cases frames with
    | nil => cases hs
    | cons f outer =>
      cases hs
      exact rfl
  | opening => cases hs
  | tooDeep hopen _ =>
    cases hs
    exact ⟨_, congrArg some (Bracket.eq_opening hopen)⟩
  | @closing f outer => cases outer <;> cases hs
  | unexpected _ hclose _ =>
    cases hs
    exact congrArg some (Bracket.eq_closing hclose)
  | @atom frames => cases frames <;> cases hs
  | cutOff _ _ hatom =>
    cases hs
    exact readAtom_faultAt hatom

/-- **A run that fails stops where the fault is.** -/
theorem readWithin_faultAt {frames : List Frame} {c stop : Cursor} {fault : ReadFault}
    (h : c.readWithin frames = (.error fault, stop)) : fault.At stop.rest := by
  induction frames, c using readWithin.induct with
  | case1 frames c outcome stop' hstep =>
    rw [readWithin_eq, hstep] at h
    cases h
    exact readStep_faultAt hstep
  | case2 frames c frames' next hstep ih =>
    rw [readWithin_eq, hstep] at h
    exact ih h

theorem scan_faultAt {c : Cursor} {fault : ReadFault} (h : c.scan.fault = some fault) :
    fault.At c.scan.stop.rest := by
  induction c using scan.induct with
  | case1 c fault' stop hrun =>
    rw [scan_of_error hrun] at h ⊢
    cases h
    exact readWithin_faultAt hrun
  | case2 c stop hrun =>
    rw [scan_of_none hrun] at h
    cases h
  | case3 c e stop hrun ih =>
    rw [scan_of_some hrun] at h ⊢
    exact ih h

end Cursor

end FormScript
