import FormScript.Reading.Reader

/-!
# Reading a whole program

`Reader.readAll` reads expressions up to the end of the source or to the first failure, and keeps
for each where it begins and where it ends.
-/

namespace FormScript

/-- An expression with the place of its first character and the place after its last one. -/
structure Located where
  expression : Sexp
  start : Position
  stop : Position

/-- What reading a source to its end gave. -/
structure Program where
  /-- The expressions read, in order. -/
  items : List Located
  /-- The failure that ended the reading, if there was one. -/
  error : Option ReadError
  /-- The reader afterwards. -/
  reader : Reader

namespace Reader

/-- Reads expressions up to the end of the source or to the first failure. -/
def readAll (r : Reader) : Program :=
  match _h : r.read with
  | (.error error, after) => ⟨[], some error, after⟩
  | (.ok none, after) => ⟨[], none, after⟩
  | (.ok (some e), after) =>
    let rest := readAll after
    { rest with items := ⟨e, after.tokenStart, after.position⟩ :: rest.items }
termination_by r.rest.length
decreasing_by exact read_length_lt _h

end Reader

namespace Program

/-- The expressions, in order. -/
def expressions (p : Program) : List Sexp := p.items.map (·.expression)

end Program

end FormScript
