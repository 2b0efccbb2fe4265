import FormScript.Lowering.Layout

/-!
# Literal forms

Arrays, objects, and operands kept as text.
-/

namespace FormScript.Forms

open Layout

/-- Consecutive elements two by two; an odd one at the end is left out. -/
def pairs : List Sexp → List (Sexp × Sexp)
  | a :: b :: rest => (a, b) :: pairs rest
  | _ => []

/-- An array: `(_arr a b)` is `[a,b]`. -/
def arrayOf (items : List Sexp) : Layout := brackets (operands "," items)

/-- A member of an object, whose key must be an atom other than a regular expression. -/
def entry (key value : Sexp) : Layout :=
  if key.isSymbol || key.isString || key.isNumber then concat [.operand key, ":", .operand value]
  else .reject (.shape .objectKey)

/-- An object in parentheses: `(_obj k v)`. -/
def objectOf (items : List Sexp) : Layout :=
  parens (braces (separated "," ((pairs items).map fun (key, value) => entry key value)))

/-- A string of words: `(_str a b)` is `"a b"`, in which escapes keep their meaning. -/
def words (items : List Sexp) : Layout := Literal.quote (Sexp.spaced items)

/-- A string that holds the operands exactly as they are written: `(quote a b)`. -/
def quotation (items : List Sexp) : Layout := Literal.quoteVerbatim (Sexp.spaced items)

end FormScript.Forms
