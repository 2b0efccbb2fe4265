import FormScript.Lowering.Form

/-!
# Lowering

`Sexp.lower` turns an expression into text. A form whose head names a macro stands for the macro's
expansion, whatever else the name means; any other expression is rendered from its layout. The two
limits are on what is under way: every expression counts while it is lowered, and an expansion counts
as an expansion besides. The expressions inside one another are counted down, as the room that is left.
-/

namespace FormScript.Sexp

/-- The lowered text of an expression, with room for `room` expressions inside one another. -/
def lower : (room : Nat) → Sexp → Lowering String
  | 0, e => .fail (.shape (.nestedTooDeeply e.kind))
  | room + 1, e => .nested do
    match (← Lowering.registry).callOf? e with
    | some (m, args) =>
      match m.expand args with
      | .error error => .fail (.expansion m.name error)
      | .ok expanded => .expanding m.name (lower room expanded)
    | none => e.layout.render (lower room)

/-- The lowered text of an expression, with the room that the expressions under way leave. -/
def lowered (e : Sexp) : Lowering String := fun s => e.lower (maxLowering - s.depth) s

end FormScript.Sexp
