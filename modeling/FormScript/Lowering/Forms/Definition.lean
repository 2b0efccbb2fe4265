import FormScript.Lowering.Layout

/-!
# Macro definitions

`(macro name (params...) body... result)` defines a macro for all forms after it and lowers to
nothing. Parameters are distinct symbols.
-/

namespace FormScript.Forms

/-- The parameters after those of `names`, which stand in reverse order. -/
def parametersFrom (name : String) (names : List String) :
    List Sexp → Except Misdefinition (List String)
  | [] => .ok names.reverse
  | parameter :: rest =>
    match parameter.symbol? with
    | some p =>
      if p ∈ names then .error (.duplicateParameter name p)
      else parametersFrom name (p :: names) rest
    | none => .error (.parameterKind name parameter)

/-- The macro that a definition describes. -/
def macroOf (items : List Sexp) : Except Misdefinition Macro :=
  match items with
  | head :: params :: first :: rest =>
    match head.symbol? with
    | none => .error (.nameKind head.kind)
    | some name =>
      match params with
      | .group .round ps => do
        let names ← parametersFrom name [] ps
        return ⟨name, names, first :: rest⟩
      | _ => .error (.parameterList name)
  | _ => .error .incomplete

/-- Defines a macro. -/
def macroDefinition (items : List Sexp) : Layout :=
  match macroOf items with
  | .ok m => .define m
  | .error problem => .reject (.definition problem)

end FormScript.Forms
