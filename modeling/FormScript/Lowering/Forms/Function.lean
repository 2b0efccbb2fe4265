import FormScript.Lowering.Layout

/-!
# Functions and calls
-/

namespace FormScript.Forms

open Layout

/-- A call: `(f a b)` is `(f(a,b))`. -/
def call (callee : Layout) (args : List Sexp) : Layout :=
  parens (concat [callee, parens (operands "," args)])

/-- The names in a parameter list, which holds symbols only. -/
def parameterNames? : List Sexp → Option (List String)
  | [] => some []
  | .symbol name :: rest => (parameterNames? rest).map (name :: ·)
  | _ :: _ => none

/-- A function: `(fun (a b) body... result)`. -/
def function : List Sexp → Layout
  | .group .round params :: body =>
    match parameterNames? params with
    | some names => functionOf (",".intercalate names) (functionBody body)
    | none => .reject (.shape .parameterList)
  | _ :: _ => .reject (.shape .parameterList)
  | [] => missing .function

/-- A function of `_`: `(lam body... result)`. -/
def unary (body : List Sexp) : Layout := functionOf "_" (functionBody body)

/-- A function without parameters, called on the spot. -/
def calledOnTheSpot (body : Layout) : Layout := concat [functionOf "" body, "()"]

/-- A scope of its own: `(closure body... result)`. -/
def closure (body : List Sexp) : Layout := calledOnTheSpot (functionBody body)

/-- Gives back a value: `(ret x)`. -/
def giveBack : List Sexp → Layout
  | [value] => braces (.wrap (.keyword "return") (.operand value))
  | _ => missing .giveBack

/-- Gives back a value under a condition: `(ifret c x)`. -/
def giveBackIf : List Sexp → Layout
  | [condition, value] =>
    braces (concat
      ["if", parens (.operand condition), .wrap (.keyword "return") (.operand value)])
  | _ => missing .giveBackIf

/-- The argument at an index, or the undefined value: `(args i)`. -/
def argument : List Sexp → Layout
  | [index] =>
    parens (.wrap (.twice "arguments.length>" "?arguments[" "]:undefined") (.operand index))
  | _ => missing .argument

/-- One argument list of a chain. -/
def chainGroup : Sexp → Layout
  | .group .round items => parens (operands "," items)
  | .group .square items => parens (operands "," items)
  | _ => .reject (.shape .chainGroup)

/-- Calls of results of calls: `(chain f (a) (b c))` is `(f(a)(b,c))`. -/
def chain : List Sexp → Layout
  | f :: groups => parens (concat (.operand f :: groups.map chainGroup))
  | [] => missing .chain

/-- A function that a value is passed to: a symbol or a function written on the spot. -/
def passedFunction (f : Sexp) : Layout :=
  match f with
  | .symbol _ => .operand f
  | .group .round (.symbol "fun" :: _) => .operand f
  | .group .round (.symbol "lam" :: _) => .operand f
  | _ => .reject (.shape .passedFunction)

/-- A value passed through functions: `(fapply x f g)` is `(g(f(x)))`. The value is lowered first
    and written last. -/
def passThrough : List Sexp → Layout
  | value :: functions =>
    functions.foldl (fun inner f => parens (.join .behind inner (passedFunction f)))
      (parens (.operand value))
  | [] => missing .passThrough

end FormScript.Forms
