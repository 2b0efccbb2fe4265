import FormScript.Lowering.Forms.Control
import FormScript.Lowering.Forms.Definition
import FormScript.Lowering.Forms.Exception
import FormScript.Lowering.Forms.Function
import FormScript.Lowering.Forms.Literal
import FormScript.Lowering.Forms.Operation
import FormScript.Lowering.Forms.Variable

/-!
# The layout of an expression

`Sexp.layout` gives the layout of any expression that is not a macro call: atoms stand for
themselves, brackets other than round ones are literals, and a form is a built-in form or a call.
-/

namespace FormScript

namespace Builtin

/-- The layout of a form with a number of operands that its contract allows. -/
def body (form : Builtin) (label : String) (items : List Sexp) : Layout :=
  match form with
  | .words => Forms.words items
  | .arrayOf => Forms.arrayOf items
  | .objectOf => Forms.objectOf items
  | .quotation => Forms.quotation items
  | .function => Forms.function items
  | .unary => Forms.unary items
  | .closure => Forms.closure items
  | .giveBack => Forms.giveBack items
  | .giveBackIf => Forms.giveBackIf items
  | .argument => Forms.argument items
  | .chain => Forms.chain items
  | .passThrough => Forms.passThrough items
  | .assign => Forms.assign items
  | .declare => Forms.declare items
  | .index => Forms.index items
  | .store => Forms.store items
  | .member => Forms.member items
  | .construct => Forms.construct items
  | .instanceTest => Forms.instanceTest items
  | .conditional => Forms.conditional items
  | .branches => Forms.branches items
  | .cases => Forms.cases items
  | .loop => Forms.loop label items
  | .iteration => Forms.iteration label items
  | .skip => Forms.jump .skip items
  | .leave => Forms.jump .leave items
  | .block => Forms.block items
  | .nothing => .text ""
  | .attempt => Forms.attempt items
  | .raise => Forms.raise items
  | .raiseError => Forms.raiseNew .raiseError items
  | .raiseTypeError => Forms.raiseNew .raiseTypeError items
  | .assertion => Forms.assertion items
  | .exclusiveOr => Forms.exclusiveOr items
  | .negation => Forms.negation items
  | .complement => Forms.complement items
  | .macroDefinition => Forms.macroDefinition items
  | .operator op => Forms.operation op items

/-- The label and the operands among the arguments of a form. -/
def split (form : Builtin) (args : List Sexp) : String × List Sexp :=
  if form.takesLabel then Forms.splitLabel args else ("", args)

/-- The layout of a built-in form; the contract is checked before anything else. -/
def layout (form : Builtin) (args : List Sexp) : Layout :=
  let (label, items) := form.split args
  match form.arity.violation? items.length with
  | some violation => .reject (.arity form violation)
  | none => form.body label items

end Builtin

namespace Sexp

/-- The layout of an expression that is not a macro call. -/
def layout (e : Sexp) : Layout :=
  match e with
  | .number _ => e.text
  | .symbol _ => e.text
  | .string _ => e.text
  | .regex _ _ => e.text
  | .group .square items => Builtin.arrayOf.layout items
  | .group .curly items => Builtin.objectOf.layout items
  | .group .round [] => .reject (.shape .emptyForm)
  | .group .round (head :: args) =>
    match head with
    | .symbol name =>
      match Builtin.ofName? name with
      | some form => form.layout args
      | none => Forms.call name args
    | .group .round _ => Forms.call (.operand head) args
    | _ => .reject (.shape (.callHead head.kind))

end Sexp

end FormScript
