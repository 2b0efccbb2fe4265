import FormScript.Macro.Evaluation

/-!
# Macros

A macro turns the arguments of a call, not yet lowered, into one expression. All expressions of
the body but the last are statements: a `let` binds names for the rest of the body, anything else is
evaluated only for the failures it may raise. The last one is the result.
-/

namespace FormScript

/-- A macro. -/
structure Macro where
  name : String
  params : List String
  body : List Sexp

namespace Macro

/-- Binds names to values, one pair after the other, each value seeing the names before it. -/
def bindPairs (env : Bindings) : List Sexp → Except ExpandError Bindings
  | target :: value :: rest =>
    match target.symbol? with
    | some name => do
      let result ← value.eval env
      bindPairs ((name, result) :: env) rest
    | none => .error (.letTarget target)
  | _ => .ok env

/-- The bindings of a `let`. -/
def bindLet (env : Bindings) (pairs : List Sexp) : Except ExpandError Bindings :=
  if pairs.isEmpty ∨ pairs.length % 2 ≠ 0 then .error .unpairedLet else bindPairs env pairs

/-- The bindings after a statement. -/
def runStatement (env : Bindings) (statement : Sexp) : Except ExpandError Bindings :=
  match statement with
  | .group .round (.symbol "let" :: pairs) => bindLet env pairs
  | e => do
    let _ ← e.eval env
    return env

/-- The value of a body. -/
def runBody (env : Bindings) : List Sexp → Except ExpandError Sexp
  | [] => .error .noBody
  | [result] => result.eval env
  | statement :: rest => do runBody (← runStatement env statement) rest

/-- The expression that a call with these arguments stands for. -/
def expand (m : Macro) (args : List Sexp) : Except ExpandError Sexp :=
  if args.length = m.params.length then runBody (.ofParams m.params args) m.body
  else .error (.argumentCount m.params.length args.length)

end Macro

end FormScript
