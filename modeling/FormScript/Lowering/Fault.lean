import FormScript.Lowering.Builtin
import FormScript.Macro.Error

/-!
# Why an expression cannot be lowered
-/

namespace FormScript

/-- How deep expressions may nest while lowering, those from macros included. -/
def maxLowering : Nat := 128

/-- How deep macro expansions may nest. -/
def maxExpansion : Nat := 64

/-- An expression of the wrong shape. -/
inductive Misshape where
  | emptyForm
  /-- An expression of this kind inside `maxLowering` others. -/
  | nestedTooDeeply (kind : String)
  /-- A call of something of this kind. -/
  | callHead (kind : String)
  | objectKey
  | parameterList
  | chainGroup
  | passedFunction
  | declaredName
  | methodName
  | memberKind
  | constructedClass
  | testedClass
  /-- The label of a jump. -/
  | jumpLabel (jump : Builtin)

namespace Misshape

/-- The form that diagnostics blame. -/
def form : Misshape → String
  | .emptyForm => "()"
  | .nestedTooDeeply kind => kind
  | .callHead _ => "function call"
  | .objectKey => Builtin.objectOf.name
  | .parameterList => Builtin.function.name
  | .chainGroup => Builtin.chain.name
  | .passedFunction => Builtin.passThrough.name
  | .declaredName => Builtin.declare.name
  | .methodName => Builtin.member.name
  | .memberKind => Builtin.member.name
  | .constructedClass => Builtin.construct.name
  | .testedClass => Builtin.instanceTest.name
  | .jumpLabel jump => jump.name

def message : Misshape → String
  | .emptyForm => "empty form"
  | .nestedTooDeeply _ => "forms nested too deeply"
  | .callHead kind => "invalid function head: " ++ kind
  | .objectKey => "key must be a symbol, string, or number"
  | .parameterList => "invalid arguments list"
  | .chainGroup => "all arguments after first must be lists"
  | .passedFunction => "all arguments after first must be symbols or function objects"
  | .declaredName => "names must be symbols"
  | .methodName => "method call must start with a symbol"
  | .memberKind => "member must be a symbol, a method call, a string, a number, or [index]"
  | .constructedClass => "first argument must be a symbol"
  | .testedClass => "second argument must be a symbol"
  | .jumpLabel _ => "label must be a symbol"

end Misshape

/-- A macro definition that is none. -/
inductive Misdefinition where
  | incomplete
  /-- The name is something of this kind. -/
  | nameKind (kind : String)
  | parameterList (name : String)
  | parameterKind (name : String) (parameter : Sexp)
  | duplicateParameter (name parameter : String)

namespace Misdefinition

def message : Misdefinition → String
  | .incomplete => "requires a name, a parameter list, and a body"
  | .nameKind kind => "name must be a symbol, not " ++ kind
  | .parameterList name => name ++ ": parameters must be a ( ) list"
  | .parameterKind name parameter => name ++ ": parameter " ++ parameter.text ++ " is not a symbol"
  | .duplicateParameter name parameter => name ++ ": duplicate parameter " ++ parameter

end Misdefinition

/-- What stopped the lowering of an expression. -/
inductive Fault where
  | arity (form : Builtin) (violation : ArityViolation)
  | shape (problem : Misshape)
  | definition (problem : Misdefinition)
  | expansion (name : String) (error : ExpandError)
  /-- An expansion inside `maxExpansion` others. -/
  | expandedTooDeeply (name : String)
  /-- A form looked for an operand that its contract does not promise. -/
  | operandMissing (form : Builtin)

namespace Fault

/-- The form or macro that diagnostics blame. -/
def form : Fault → String
  | .arity form _ => form.name
  | .shape problem => problem.form
  | .definition _ => Builtin.macroDefinition.name
  | .expansion name _ => name
  | .expandedTooDeeply name => name
  | .operandMissing form => form.name

/-- What is wrong with it. -/
def detail : Fault → String
  | .arity _ violation => violation.message
  | .shape problem => problem.message
  | .definition problem => problem.message
  | .expansion _ error => error.message
  | .expandedTooDeeply _ => "expansion nested more than " ++ toString maxExpansion ++ " deep"
  | .operandMissing _ => "operand missing"

def message (f : Fault) : String :=
  match f with
  | .expansion .. => "expanding macro " ++ f.form ++ ": " ++ f.detail
  | .expandedTooDeeply _ => "expanding macro " ++ f.form ++ ": " ++ f.detail
  | _ => f.form ++ ": " ++ f.detail

end Fault

end FormScript
