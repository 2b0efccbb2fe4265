import FormScript.Lowering.Forms.Literal

/-!
# Variables and members
-/

namespace FormScript.Forms

open Layout

/-- Targets and values two by two. -/
def assignments (items : List Sexp) : Layout :=
  separated "," ((pairs items).map fun (target, value) =>
    concat [.operand target, "=", .operand value])

/-- Assignments: `(def a 1 b 2)` is `(a=1,b=2)`. -/
def assign (items : List Sexp) : Layout := parens (assignments items)

/-- Declarations of variables, whose names must be symbols: `(let a 1 b 2)`. -/
def declare (items : List Sexp) : Layout :=
  if (pairs items).all fun (name, _) => name.isSymbol then
    braces (concat ["var ", assignments items])
  else .reject (.shape .declaredName)

/-- Every key in brackets. -/
def indices (keys : List Sexp) : Layout := concat (keys.map fun key => brackets (.operand key))

/-- A member by its keys: `(get o k1 k2)` is `(o[k1][k2])`. -/
def index : List Sexp → Layout
  | target :: keys => parens (concat [.operand target, indices keys])
  | [] => missing .index

/-- An assignment to a member: `(set o k1 k2 v)` is `(o[k1][k2]=v)`. -/
def store : List Sexp → Layout
  | target :: keys =>
    match keys.getLast? with
    | some value =>
      parens (concat [.operand target, indices keys.dropLast, "=", .operand value])
    | none => missing .store
  | [] => missing .store

/-- One step of a member path. -/
def memberStep (step : Sexp) : Layout :=
  match step with
  | .symbol name => "." ++ name
  | .group .round (.symbol name :: args) => concat ["." ++ name, parens (operands "," args)]
  | .group .round _ => .reject (.shape .methodName)
  | .string _ => brackets (.operand step)
  | .number _ => brackets (.operand step)
  | .group .square [key] => brackets (.operand key)
  | _ => .reject (.shape .memberKind)

/-- A member path: `(. o a (m 1) "k" [i])` is `(o.a.m(1)["k"][i])`. -/
def member : List Sexp → Layout
  | target :: steps => parens (concat (.operand target :: steps.map memberStep))
  | [] => missing .member

/-- A new object of a class: `(new C a)` is `(new C(a))`. -/
def construct : List Sexp → Layout
  | .symbol name :: args => parens (concat ["new " ++ name, parens (operands "," args)])
  | _ :: _ => .reject (.shape .constructedClass)
  | [] => missing .construct

/-- A test whether a value is of a class: `(instanceof x C)`. -/
def instanceTest : List Sexp → Layout
  | [value, cls] =>
    if cls.isSymbol then parens (concat [.operand value, " instanceof ", .operand cls])
    else .reject (.shape .testedClass)
  | _ => missing .instanceTest

end FormScript.Forms
