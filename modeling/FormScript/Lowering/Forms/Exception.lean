import FormScript.Lowering.Forms.Function

/-!
# Exceptions
-/

namespace FormScript.Forms

open Layout

/-- A statement, and another one for the exception `_` it may raise. -/
def attemptThen (body handler : Sexp) (last : Layout) : Layout :=
  calledOnTheSpot (concat
    ["try", braces (.operand body), "catch(_)", braces (.operand handler), last])

/-- An attempt with a handler: `(try body catch finally)`. -/
def attempt : List Sexp → Layout
  | [body, handler] => attemptThen body handler ""
  | [body, handler, last] =>
    attemptThen body handler (concat ["finally", braces (.operand last)])
  | _ => missing .attempt

/-- Raises a value: `(throw x)`. -/
def raise : List Sexp → Layout
  | [value] => braces (concat ["throw ", .operand value])
  | _ => missing .raise

/-- Raises a new exception of a class: `(Error message)`. -/
def raiseNew (form : Builtin) (args : List Sexp) : Layout :=
  braces (concat ["throw " ++ form.name, parens (operands "," args)])

/-- Raises `x` unless `c` holds: `(assert c x)`. -/
def assertion : List Sexp → Layout
  | [condition, value] =>
    braces (concat
      ["if", parens (concat ["!", parens (.operand condition)]), "throw ", .operand value])
  | _ => missing .assertion

end FormScript.Forms
