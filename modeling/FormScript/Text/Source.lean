import FormScript.Text.Cursor

/-!
# Character sources

A source delivers the characters of one text in order and can be rewound. A *text* source holds
every character from the outset. A *stream* pulls characters one at a time, keeps those it has
pulled, and always has the character under the cursor at hand, so that looking at it pulls nothing.

Both kinds are the same zipper: the characters behind the cursor, those ahead of it that are
already pulled, and those still pending. For a text source nothing is ever pending.
-/

namespace FormScript

/-- Where a source's characters come from. -/
inductive Source.Kind where
  | text
  | stream
deriving DecidableEq

/-- A rewindable source of characters. -/
structure Source where
  kind : Source.Kind
  /-- The characters already passed, the last one first. -/
  behind : List Char
  /-- The characters under and after the cursor that are already pulled. -/
  ahead : List Char
  /-- The characters not pulled yet. -/
  pending : List Char
  position : Position
  /-- The character under the cursor is always at hand. -/
  at_hand : ahead = [] → pending = [] := by simp

namespace Source

/-- A source that holds the whole text. -/
def ofText (cs : List Char) : Source :=
  { kind := .text, behind := [], ahead := cs, pending := [], position := .start }

/-- A source that pulls the text character by character, the first one at once. -/
def ofStream : List Char → Source
  | [] => { kind := .stream, behind := [], ahead := [], pending := [], position := .start }
  | c :: cs => { kind := .stream, behind := [], ahead := [c], pending := cs, position := .start }

/-- All characters from the cursor on. -/
def rest (s : Source) : List Char :=
  match s.pending with
  | [] => s.ahead
  | pending => s.ahead ++ pending

/-- The source's place and what is left of it. -/
def cursor (s : Source) : Cursor := ⟨s.rest, s.position⟩

/-- The character under the cursor. -/
def peek (s : Source) : Option Char := s.ahead.head?

/-- Moves over one character, pulling the next one if none is at hand; stays at the end. -/
def advance (s : Source) : Source :=
  match s.ahead, s.pending with
  | [], _ => s
  | [c], [] => { s with behind := c :: s.behind, ahead := [], pending := [],
                        position := s.position.step c, at_hand := by simp }
  | [c], d :: ds => { s with behind := c :: s.behind, ahead := [d], pending := ds,
                             position := s.position.step c, at_hand := by simp }
  | c :: d :: ds, pending => { s with behind := c :: s.behind, ahead := d :: ds, pending := pending,
                                      position := s.position.step c, at_hand := by simp }

/-- Moves over `n` characters. -/
def advanceBy (s : Source) : Nat → Source
  | 0 => s
  | n + 1 => s.advance.advanceBy n

/-- Goes back to the first character. What was pulled stays pulled. -/
def reset (s : Source) : Source :=
  { s with behind := [], ahead := s.behind.reverse ++ s.ahead, position := .start,
           at_hand := fun h => s.at_hand (by simp at h; exact h.2) }

/-- How many characters have been pulled so far. -/
def pulled (s : Source) : Nat := s.behind.length + s.ahead.length

/-- A short description for diagnostics. -/
def describe (s : Source) : String :=
  match s.kind with
  | .text => "<text " ++ toString s.pulled ++ " chars>"
  | .stream => "<stream, " ++ toString s.pulled ++ " chars read>"

theorem rest_eq (s : Source) : s.rest = s.ahead ++ s.pending := by
  unfold rest
  split
  · rename_i h
    rw [h, List.append_nil]
  · rfl

/-- The character under the cursor is the first one that is left. -/
theorem peek_eq (s : Source) : s.peek = s.rest.head? := by
  unfold peek
  rw [rest_eq]
  cases hahead : s.ahead with
  | nil => rw [s.at_hand hahead]; rfl
  | cons c cs => rfl

theorem advance_cursor (s : Source) : s.advance.cursor = s.cursor.next := by
  unfold cursor Cursor.next advance
  rw [rest_eq, rest_eq]
  split
  · rename_i h
    simp [h, s.at_hand h]
  all_goals simp_all [Cursor.past]

/-- A move over a character leaves fewer of them. -/
theorem advance_length_lt {s : Source} {c : Char} (h : s.peek = some c) :
    s.advance.rest.length < s.rest.length := by
  have hrest : s.advance.rest = s.rest.tail := by
    rw [← show s.cursor.rest = s.rest from rfl, ← Cursor.next_rest, ← advance_cursor]
    rfl
  rw [peek_eq] at h
  obtain ⟨tail, htail⟩ := List.head?_eq_some_iff.mp h
  rw [hrest, htail]
  exact Nat.lt_succ_self _

/-- Moving over characters one by one is moving over all of them. -/
theorem advanceBy_cursor (s : Source) {taken : List Char} {c : Cursor}
    (hrest : s.rest = taken ++ c.rest) (hpos : c.position = s.position.advance taken) :
    (s.advanceBy taken.length).cursor = c := by
  induction taken generalizing s with
  | nil =>
    cases c
    simp_all [advanceBy, cursor]
  | cons ch taken ih =>
    have hnext : s.advance.cursor = ⟨taken ++ c.rest, s.position.step ch⟩ := by
      rw [advance_cursor]
      simp [Cursor.next, cursor, hrest, Cursor.past]
    rw [List.length_cons, advanceBy]
    apply ih
    · exact congrArg Cursor.rest hnext
    · rw [hpos, Position.advance_cons]
      exact congrArg (Position.advance · taken) (congrArg Cursor.position hnext).symm

theorem advanceBy_advanceBy (s : Source) (n m : Nat) :
    (s.advanceBy n).advanceBy m = s.advanceBy (n + m) := by
  induction n generalizing s with
  | zero => rw [Nat.zero_add]; rfl
  | succ n ih => rw [Nat.succ_add]; exact ih s.advance

/-! ## Moving to a cursor -/

/-- The source moved on to a cursor of its text. -/
def moveTo (s : Source) (c : Cursor) : Source :=
  s.advanceBy (c.position.offset - s.position.offset)

@[simp] theorem moveTo_self (s : Source) : s.moveTo s.cursor = s := by
  unfold moveTo
  rw [show s.cursor.position.offset - s.position.offset = 0 from Nat.sub_self _]
  rfl

theorem moveTo_cursor {s : Source} {c : Cursor} (h : s.cursor.Reaches c) : (s.moveTo c).cursor = c := by
  obtain ⟨taken, hrest, hpos⟩ := h
  have hcount : c.position.offset - s.position.offset = taken.length := by
    rw [hpos, Position.advance_offset]
    exact Nat.add_sub_cancel_left _ _
  unfold moveTo
  rw [hcount]
  exact s.advanceBy_cursor hrest hpos

theorem moveTo_moveTo {s : Source} {c d : Cursor} (h : s.cursor.Reaches c) (k : c.Reaches d) :
    (s.moveTo c).moveTo d = s.moveTo d := by
  have hc : s.position.offset ≤ c.position.offset := h.offset_le
  have hd : c.position.offset ≤ d.position.offset := k.offset_le
  have hstands : (s.moveTo c).position = c.position := congrArg Cursor.position (moveTo_cursor h)
  show (s.moveTo c).advanceBy (d.position.offset - (s.moveTo c).position.offset) = s.moveTo d
  rw [hstands]
  unfold moveTo
  rw [advanceBy_advanceBy]
  congr 1
  omega

/-- One move goes to the next cursor. -/
theorem advance_eq_moveTo (s : Source) : s.advance = s.moveTo s.cursor.next := by
  unfold moveTo Cursor.next
  rw [show s.cursor.rest = s.rest from rfl]
  cases hrest : s.rest with
  | nil =>
    have hahead : s.ahead = [] := by
      rw [rest_eq] at hrest
      exact (List.append_eq_nil_iff.mp hrest).1
    have hstays : s.advance = s := by
      unfold advance
      rw [hahead]
    rw [hstays, show s.cursor.position.offset - s.position.offset = 0 from Nat.sub_self _]
    rfl
  | cons c cs =>
    have hone : (s.cursor.past [c] cs).position.offset - s.position.offset = 1 := by
      show (s.position.step c).offset - s.position.offset = 1
      rw [Position.step_offset]
      exact Nat.add_sub_cancel_left _ _
    simp only [hone]
    rfl

end Source

end FormScript
