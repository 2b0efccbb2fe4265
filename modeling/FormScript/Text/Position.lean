/-!
# Positions in a text

A position counts the characters before it and names the line and column of the character it
stands on. Offsets count from zero, lines and columns from one, and all three count code points.
-/

namespace FormScript

/-- A place in a text. -/
structure Position where
  offset : Nat
  line : Nat
  column : Nat
deriving DecidableEq, Inhabited

namespace Position

/-- The place of the first character. -/
def start : Position := ⟨0, 1, 1⟩

/-- The place after the character `c`: a line feed opens a line, anything else a column. -/
def step (p : Position) (c : Char) : Position :=
  if c = '\n' then ⟨p.offset + 1, p.line + 1, 1⟩ else ⟨p.offset + 1, p.line, p.column + 1⟩

/-- The place after all of `cs`. -/
def advance (p : Position) (cs : List Char) : Position :=
  cs.foldl step p

/-- How diagnostics name a place. -/
def describe (p : Position) : String :=
  "line " ++ toString p.line ++ ", column " ++ toString p.column

@[simp] theorem advance_nil (p : Position) : p.advance [] = p := rfl

@[simp] theorem advance_cons (p : Position) (c : Char) (cs : List Char) :
    p.advance (c :: cs) = (p.step c).advance cs := rfl

theorem advance_append (p : Position) (cs ds : List Char) :
    p.advance (cs ++ ds) = (p.advance cs).advance ds := by
  simp [advance, List.foldl_append]

@[simp] theorem step_offset (p : Position) (c : Char) : (p.step c).offset = p.offset + 1 := by
  unfold step
  split <;> rfl

theorem advance_offset (p : Position) (cs : List Char) :
    (p.advance cs).offset = p.offset + cs.length := by
  induction cs generalizing p with
  | nil => rfl
  | cons c cs ih =>
    rw [advance_cons, ih, step_offset, List.length_cons]
    omega

end Position

end FormScript
