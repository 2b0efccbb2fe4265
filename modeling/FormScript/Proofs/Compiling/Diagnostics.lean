import FormScript.Proofs.Compiling.Items
import FormScript.Proofs.Lowering.Demands
import FormScript.Proofs.Reading.Places

/-!
# Where compiling fails

A failure of compiling points into the text. Its place is taken at one of two moments: an expression that
cannot be lowered is reported where it begins, and a text that cannot be read where the reader stands.
`Diagnosed` says what is found there, and every failure is diagnosed (`failures_diagnosed`).
-/

namespace FormScript

/-- What is found at the place of a failure. -/
structure Diagnosed (text : String) (e : CompileError) : Prop where
  /-- The line and the column are those of the offset. -/
  placed : Placed text.toList e.position
  /-- The expressions in front of one that is refused have been lowered, and it begins at the place. -/
  refused : ∀ fault, e.cause = .refused fault → ∃ before item after state left,
    (Reader.ofText text).readAll.items = before ++ item :: after
      ∧ Granted Sexp.lowered (before.map fun earlier => .lower earlier.expression) .initial state
      ∧ item.expression.lowered state = (.error fault, left)
      ∧ e.position = item.start ∧ item.Stands text.toList
  /-- An incomplete text has been read to its end. -/
  incomplete : ∀ error, e.cause = .unreadable error → error.severity = .incomplete →
    e.position.offset = text.length
  /-- In a malformed text the place is on the bracket that the message is about. -/
  malformed : ∀ error, e.cause = .unreadable error → error.severity = .malformed →
    (∃ b : Bracket, error = .ofFault (.unexpectedClosing b) (Reader.textName text)
      ∧ text.toList[e.position.offset]? = some b.closing)
    ∨ (error = .ofFault .nestedTooDeeply (Reader.textName text)
      ∧ ∃ b : Bracket, text.toList[e.position.offset]? = some b.opening)

/-- Every expression that is read from a text stands in it. -/
theorem Reader.readAll_stands (text : String) :
    ∀ item ∈ (Reader.ofText text).readAll.items, item.Stands text.toList := by
  obtain ⟨hitems, _⟩ := Reader.readAll_ofText text
  rw [hitems]
  exact Cursor.scan_stands (.refl _)

namespace Session

/-- **Lowering fails at the first expression that is refused.** -/
theorem refused_at {items : List Located} {state : Lowering.State} {out : String} {e : CompileError}
    (h : (lowerItems state out items).1 = .error e) :
    ∃ before item after between fault left, items = before ++ item :: after
      ∧ Granted Sexp.lowered (before.map fun earlier => .lower earlier.expression) state between
      ∧ item.expression.lowered between = (.error fault, left) ∧ e = ⟨item.start, .refused fault⟩ := by
  induction items generalizing state out with
  | nil => cases h
  | cons item items ih =>
    simp only [lowerItems] at h
    cases hlower : item.expression.lowered state with
    | mk outcome next =>
      rw [hlower] at h
      cases outcome with
      | error fault =>
        cases h
        exact ⟨[], item, items, state, fault, next, rfl, .nil, hlower, rfl⟩
      | ok text =>
        obtain ⟨before, refused, after, between, fault, left, rfl, hbefore, hrefused, he⟩ := ih h
        exact ⟨item :: before, refused, after, between, fault, left, rfl, .lower hlower hbefore, hrefused,
          he⟩

/-- Compiling a text fails in lowering what is read, or where reading does. -/
theorem compile_error {text : String} {e : CompileError} (h : (ofText text).compile.1 = .error e) :
    (lowerItems .initial "" (Reader.ofText text).readAll.items).1 = .error e
      ∨ ∃ error, (Reader.ofText text).readAll.error = some error
        ∧ e = ⟨(Reader.ofText text).readAll.reader.position, .unreadable error⟩ :=
  compileFrom_error h

end Session

theorem diagnosed_refused {text : String} {e : CompileError}
    (h : (Session.lowerItems .initial "" (Reader.ofText text).readAll.items).1 = .error e) :
    Diagnosed text e := by
  obtain ⟨before, item, after, state, fault, left, hitems, hbefore, hrefused, rfl⟩ :=
    Session.refused_at h
  have hstands := Reader.readAll_stands text item (by simp [hitems])
  refine ⟨hstands.start_placed, ?_, ?_, ?_⟩
  · intro fault' hcause
    cases hcause
    exact ⟨before, item, after, state, left, hitems, hbefore, hrefused, rfl, hstands⟩
  · intro error hcause
    cases hcause
  · intro error hcause
    cases hcause

theorem diagnosed_unreadable {text : String} {error : ReadError}
    (h : (Reader.ofText text).readAll.error = some error) :
    Diagnosed text ⟨(Reader.ofText text).readAll.reader.position, .unreadable error⟩ := by
  obtain ⟨_, hcursor, herror⟩ := Reader.readAll_ofText text
  rw [h] at herror
  obtain ⟨fault, hfault, rfl⟩ := Option.map_eq_some_iff.mp herror.symm
  have hat := Cursor.scan_faultAt hfault
  obtain ⟨hplaced, hdrop⟩ := (Cursor.ofText text.toList).scan_reaches.placed
  have hposition : (Reader.ofText text).readAll.reader.position
      = (Cursor.ofText text.toList).scan.stop.position := congrArg Cursor.position hcursor
  rw [hposition]
  -- the first character that is left is the one at the offset
  rw [← hdrop] at hat
  refine ⟨hplaced, ?_, ?_, ?_⟩
  · intro fault' hcause
    cases hcause
  · intro error hcause hseverity
    cases hcause
    have hend := List.drop_eq_nil_iff.mp (hat.incomplete hseverity)
    rw [← String.length_toList]
    exact Nat.le_antisymm hplaced.offset_le hend
  · intro error hcause hseverity
    cases hcause
    cases fault with
    | unexpectedClosing b => exact Or.inl ⟨b, rfl, List.head?_drop.symm.trans hat⟩
    | nestedTooDeeply =>
      obtain ⟨b, hb⟩ := hat
      exact Or.inr ⟨rfl, b, List.head?_drop.symm.trans hb⟩
    | unterminatedString => cases hseverity
    | unterminatedRegex => cases hseverity
    | unterminatedGroup b => cases hseverity

/-- **Diagnostics point at the right place.** Whatever the text, a failure of compiling names the line and the
    column of its offset. If an expression is refused, the offset is that of its first character, and all
    expressions in front of it have been lowered; if the text is incomplete, it is the end of the text; if the
    text is malformed, it is that of the bracket at fault. Every expression that is read stands where its
    places say, and each marker in it is read as the line or the column of the marker's first character. -/
theorem failures_diagnosed (text : String) :
    (∀ e, (Session.ofText text).compile.1 = .error e → Diagnosed text e)
      ∧ ∀ item ∈ (Reader.ofText text).readAll.items, item.Stands text.toList := by
  refine ⟨?_, Reader.readAll_stands text⟩
  intro e he
  rcases Session.compile_error he with hlower | ⟨error, herror, rfl⟩
  · exact diagnosed_refused hlower
  · exact diagnosed_unreadable herror

/-- A form without its operands on the second line, behind a call that asks for its line and column. -/
theorem failures_diagnosed_second_line :
    (∃ e, (Session.ofText "(f __LINE [__COLUMN])\n  (if)").compile.1 = .error e
      ∧ e.position = ⟨24, 2, 3⟩ ∧ Diagnosed "(f __LINE [__COLUMN])\n  (if)" e)
    ∧ Denotes "(f __LINE [__COLUMN])\n  (if)".toList 0
      [.group .round [.symbol "f", .number (.ofNat 1), .group .square [.number (.ofNat 12)]]] 21 := by
  have hfails : (Session.ofText "(f __LINE [__COLUMN])\n  (if)").compile.1.mapError (·.position)
      = .error ⟨24, 2, 3⟩ := by decide +kernel
  have hitems : (Reader.ofText "(f __LINE [__COLUMN])\n  (if)").readAll.items
      = [⟨.group .round [.symbol "f", .number (.ofNat 1), .group .square [.number (.ofNat 12)]],
          ⟨0, 1, 1⟩, ⟨21, 1, 22⟩⟩, ⟨.group .round [.symbol "if"], ⟨24, 2, 3⟩, ⟨28, 2, 7⟩⟩] := by
    with_unfolding_all rfl
  obtain ⟨hdiagnosed, hstands⟩ := failures_diagnosed "(f __LINE [__COLUMN])\n  (if)"
  constructor
  · cases hcompile : (Session.ofText "(f __LINE [__COLUMN])\n  (if)").compile.1 with
    | error e =>
      rw [hcompile] at hfails
      exact ⟨e, rfl, Except.error.inj hfails, hdiagnosed e hcompile⟩
    | ok out =>
      rw [hcompile] at hfails
      cases hfails
  · rw [hitems] at hstands
    exact (hstands _ List.mem_cons_self).denotes

end FormScript
