import FormScript.Lowering.Layout

/-!
# Operators
-/

namespace FormScript.Forms

open Layout

/-- An infix operator: `(op a b c)` is `(a op b op c)`. -/
def operation (op : Operator) : List Sexp → Layout
  | first :: rest =>
    parens (concat (.operand first :: rest.map fun e => .wrap (.operator op.spelling) (.operand e)))
  | [] => missing (.operator op)

/-- Exclusive or of truth values: `(xor a b)` is `((!!a)^(!!b))`. -/
def exclusiveOr (items : List Sexp) : Layout :=
  parens (separated "^" (items.map fun e => parens (concat ["!!", .operand e])))

/-- Change of sign: `(neg a)` is `(-a)`. -/
def negation : List Sexp → Layout
  | [e] => parens (.wrap (.operator "-") (.operand e))
  | _ => missing .negation

/-- Logical complement: `(! a)`. -/
def complement : List Sexp → Layout
  | [e] => parens (.wrap (.keyword "!") (.operand e))
  | _ => missing .complement

end FormScript.Forms
