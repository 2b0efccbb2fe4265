import FormScript.Sexp.Basic
import FormScript.Sexp.Literal
import FormScript.Number.Notation

/-!
# Source notation

`Sexp.text` writes an expression as it would stand in a program: elements separated by one space,
every string in double quotes.
-/

namespace FormScript

namespace Bracket

/-- A text between the two brackets. -/
def enclose (b : Bracket) (inner : String) : String :=
  b.opening.toString ++ inner ++ b.closing.toString

end Bracket

namespace Sexp

mutual

/-- An expression in source notation. -/
def text : Sexp → String
  | .number value => value.text
  | .symbol name => name
  | .string content => Literal.quote content
  | .regex pattern flags => "/" ++ pattern ++ "/" ++ flags
  | .group bracket items => bracket.enclose (" ".intercalate (texts items))

/-- Expressions in source notation, each by itself. -/
def texts : List Sexp → List String
  | [] => []
  | e :: es => text e :: texts es

end

/-- Expressions in source notation, separated by spaces. -/
def spaced (es : List Sexp) : String := " ".intercalate (texts es)

end Sexp

end FormScript
