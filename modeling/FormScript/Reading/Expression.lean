import FormScript.Reading.Atom

/-!
# Reading an expression

The reader keeps the groups that are open, innermost first, each with the elements read so far. An
opening bracket opens a group, a closing bracket must close the innermost one, and a finished
expression goes into the innermost group or, if none is open, is the result. A bracket that cannot
be accepted is not consumed.

`readStep` does one such step at a character that is no gap; `readWithin` repeats it.
-/

namespace FormScript

/-- A group that is still open. -/
structure Frame where
  bracket : Bracket
  /-- The elements read so far, the last one first. -/
  items : List Sexp

namespace Frame

/-- The frame with one more element. -/
def push (f : Frame) (e : Sexp) : Frame := { f with items := e :: f.items }

/-- The finished group. -/
def close (f : Frame) : Sexp := .group f.bracket f.items.reverse

end Frame

/-- What one step of the reader leads to: an outcome, or another step inside the open groups. It ends at a
    place `α`, a cursor or a source. -/
inductive ReadStep (α : Type) where
  | done (outcome : Except ReadFault (Option Sexp)) (stop : α)
  | more (frames : List Frame) (next : α)

namespace ReadStep

variable {α β : Type}

/-- Where a step leaves the cursor. -/
def cursor : ReadStep Cursor → Cursor
  | .done _ stop => stop
  | .more _ next => next

/-- The step with its place seen in another way. -/
def map (f : α → β) : ReadStep α → ReadStep β
  | .done outcome stop => .done outcome (f stop)
  | .more frames next => .more frames (f next)

/-- A finished expression goes into the innermost open group, or is the result. -/
def deliver (e : Sexp) (frames : List Frame) (here : α) : ReadStep α :=
  match frames with
  | [] => .done (.ok (some e)) here
  | f :: outer => .more (f.push e :: outer) here

/-- The end of the text, which must be outside all groups. -/
def atEnd (frames : List Frame) (here : α) : ReadStep α :=
  match frames with
  | [] => .done (.ok none) here
  | f :: _ => .done (.error (.unterminatedGroup f.bracket)) here

/-- An opening bracket, which has the place `next` behind it. -/
def atOpening (b : Bracket) (frames : List Frame) (here next : α) : ReadStep α :=
  if frames.length < maxNesting then .more (⟨b, []⟩ :: frames) next
  else .done (.error .nestedTooDeeply) here

/-- A closing bracket, which has the place `next` behind it. -/
def atClosing (b : Bracket) (frames : List Frame) (here next : α) : ReadStep α :=
  match frames with
  | [] => .done (.error (.unexpectedClosing b)) here
  | f :: outer =>
    if f.bracket = b then deliver f.close outer next
    else .done (.error (.unexpectedClosing b)) here

theorem deliver_map (f : α → β) (e : Sexp) (frames : List Frame) (here : α) :
    (deliver e frames here).map f = deliver e frames (f here) := by
  cases frames with
  | nil => rfl
  | cons frame outer => rfl

theorem atEnd_map (f : α → β) (frames : List Frame) (here : α) :
    (atEnd frames here).map f = atEnd frames (f here) := by
  cases frames with
  | nil => rfl
  | cons frame outer => rfl

theorem atOpening_map (f : α → β) (b : Bracket) (frames : List Frame) (here next : α) :
    (atOpening b frames here next).map f = atOpening b frames (f here) (f next) := by
  unfold atOpening
  split
  · rfl
  · rfl

theorem atClosing_map (f : α → β) (b : Bracket) (frames : List Frame) (here next : α) :
    (atClosing b frames here next).map f = atClosing b frames (f here) (f next) := by
  cases frames with
  | nil => rfl
  | cons frame outer =>
    unfold atClosing
    simp only
    split
    · exact deliver_map f _ _ _
    · rfl

end ReadStep

namespace Cursor

open ReadStep

/-- One step at a cursor that stands on no gap. -/
def readStep (frames : List Frame) (c : Cursor) : ReadStep Cursor :=
  match c.rest with
  | [] => atEnd frames c
  | first :: _ =>
    match Bracket.ofOpening? first with
    | some b => atOpening b frames c c.next
    | none =>
      match Bracket.ofClosing? first with
      | some b => atClosing b frames c c.next
      | none =>
        match c.next.readAtom first with
        | (.error fault, stop) => .done (.error fault) stop
        | (.ok e, stop) => deliver e frames stop

/-! ## Every step moves forward -/

theorem next_length_lt {c : Cursor} {first : Char} {tail : List Char} (h : c.rest = first :: tail) :
    c.next.rest.length < c.rest.length := by
  rw [next_rest, h]
  exact Nat.lt_succ_self _

theorem deliver_cursor (e : Sexp) (frames : List Frame) (c : Cursor) :
    (deliver e frames c).cursor = c := by
  cases frames with
  | nil => rfl
  | cons f outer => rfl

theorem atEnd_cursor (frames : List Frame) (c : Cursor) : (atEnd frames c).cursor = c := by
  cases frames with
  | nil => rfl
  | cons f outer => rfl

/-- A step stays where it is or moves over at least one character; it stays only if it ends the
    reading without an expression. -/
theorem readStep_cursor (frames : List Frame) (c : Cursor) :
    c.Reaches (readStep frames c).cursor ∧
      ((readStep frames c).cursor.rest.length < c.rest.length ∨
        (∃ fault, readStep frames c = .done (.error fault) c) ∨
        readStep frames c = .done (.ok none) c) := by
  unfold readStep
  split
  · refine ⟨?_, ?_⟩
    · rw [atEnd_cursor]
      exact Reaches.refl c
    · cases frames with
      | nil => exact Or.inr (Or.inr rfl)
      | cons f outer => exact Or.inr (Or.inl ⟨_, rfl⟩)
  · rename_i first tail hrest
    have hlt := next_length_lt hrest
    split
    · unfold atOpening
      split
      · exact ⟨c.next_reaches, Or.inl hlt⟩
      · exact ⟨Reaches.refl c, Or.inr (Or.inl ⟨_, rfl⟩)⟩
    · split
      · unfold atClosing
        split
        · exact ⟨Reaches.refl c, Or.inr (Or.inl ⟨_, rfl⟩)⟩
        · split
          · rw [deliver_cursor]
            exact ⟨c.next_reaches, Or.inl hlt⟩
          · exact ⟨Reaches.refl c, Or.inr (Or.inl ⟨_, rfl⟩)⟩
      · have hatom := c.next.readAtom_reaches first
        split
        · rename_i fault stop hread
          rw [hread] at hatom
          exact ⟨c.next_reaches.trans hatom, Or.inl (Nat.lt_of_le_of_lt hatom.length_le hlt)⟩
        · rename_i e stop hread
          rw [hread] at hatom
          rw [deliver_cursor]
          exact ⟨c.next_reaches.trans hatom, Or.inl (Nat.lt_of_le_of_lt hatom.length_le hlt)⟩

theorem readStep_more_length {frames frames' : List Frame} {c c' : Cursor}
    (h : readStep frames c = .more frames' c') : c'.rest.length < c.rest.length := by
  have hstep := (readStep_cursor frames c).2
  rw [h] at hstep
  rcases hstep with hlt | ⟨fault, hdone⟩ | hdone
  · exact hlt
  · cases hdone
  · cases hdone

theorem readStep_done_length {frames : List Frame} {c c' : Cursor} {e : Sexp}
    (h : readStep frames c = .done (.ok (some e)) c') : c'.rest.length < c.rest.length := by
  have hstep := (readStep_cursor frames c).2
  rw [h] at hstep
  rcases hstep with hlt | ⟨fault, hdone⟩ | hdone
  · exact hlt
  · cases hdone
  · cases hdone

/-- Reads on inside the open groups `frames` until an expression is complete outside all of them.
    The result is `none` at the end of the text when no group is open. -/
def readWithin (frames : List Frame) (c : Cursor) : Except ReadFault (Option Sexp) × Cursor :=
  match _h : readStep frames c.skipGap with
  | .done outcome stop => (outcome, stop)
  | .more frames' next => readWithin frames' next
termination_by c.rest.length
decreasing_by exact Nat.lt_of_lt_of_le (readStep_more_length _h) c.skipGap_reaches.length_le

end Cursor

/-- What reading on from a step gives. -/
def ReadStep.run : ReadStep Cursor → Except ReadFault (Option Sexp) × Cursor
  | .done outcome stop => (outcome, stop)
  | .more frames next => next.readWithin frames

namespace Cursor

/-- Reads the expression at the cursor. -/
def readExpression (c : Cursor) : Except ReadFault (Option Sexp) × Cursor := c.readWithin []

/-- **A run is a step and the run after it.** -/
theorem readWithin_eq (frames : List Frame) (c : Cursor) :
    c.readWithin frames = (readStep frames c.skipGap).run := by
  rw [readWithin]
  split
  · rename_i hstep
    rw [hstep]
    rfl
  · rename_i hstep
    rw [hstep]
    rfl

theorem readWithin_reaches (frames : List Frame) (c : Cursor) :
    c.Reaches (c.readWithin frames).2 := by
  fun_induction readWithin frames c with
  | case1 frames c outcome stop hstep =>
    have hmove := (readStep_cursor frames c.skipGap).1
    rw [hstep] at hmove
    exact c.skipGap_reaches.trans hmove
  | case2 frames c frames' next hstep ih =>
    have hmove := (readStep_cursor frames c.skipGap).1
    rw [hstep] at hmove
    exact (c.skipGap_reaches.trans hmove).trans ih

/-- An expression takes at least one character. -/
theorem readWithin_length_lt {frames : List Frame} {c : Cursor} {e : Sexp}
    (h : (c.readWithin frames).1 = .ok (some e)) :
    (c.readWithin frames).2.rest.length < c.rest.length := by
  fun_induction readWithin frames c with
  | case1 frames c outcome stop hstep =>
    cases h
    exact Nat.lt_of_lt_of_le (readStep_done_length hstep) c.skipGap_reaches.length_le
  | case2 frames c frames' next hstep ih =>
    have hmore := readStep_more_length hstep
    exact Nat.lt_trans (ih h) (Nat.lt_of_lt_of_le hmore c.skipGap_reaches.length_le)

end Cursor

end FormScript
