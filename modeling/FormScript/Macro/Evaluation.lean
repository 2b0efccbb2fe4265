import FormScript.Macro.Constant
import FormScript.Macro.Error

/-!
# Evaluation of macro bodies

A macro body is evaluated to an expression. A bound symbol stands for its value; any other atom
stands for itself. A form whose head is a special name follows that name's rule, an operator on
constants is carried out, and any other group is rebuilt from its evaluated elements. A form whose
head is a bound symbol is an ordinary group, whatever the name.
-/

namespace FormScript

/-- The values of bound names; of two bindings of one name the first in the list counts. -/
abbrev Bindings := List (String × Sexp)

namespace Bindings

/-- The value of a name. -/
def get? : Bindings → String → Option Sexp
  | [], _ => none
  | (bound, value) :: rest, name => if bound = name then some value else get? rest name

/-- The bindings of parameters to arguments; of two parameters of one name the later counts. -/
def ofParams (params : List String) (args : List Sexp) : Bindings := (params.zip args).reverse

end Bindings

namespace Sexp

/-- The elements of a value that should be a group. -/
def elementsFor (form : Special) (value : Sexp) : Except ExpandError (List Sexp) :=
  match value.elements? with
  | some items => .ok items
  | none => .error (.notGroup form value)

/-- An index is bounded by what a machine word can hold. -/
def maxIndex : Nat := Nat.pow 2 64 - 1

/-- The natural number that an index denotes. -/
def indexFor (form : Special) (index : Sexp) : Except ExpandError Nat :=
  match index with
  | .number x =>
    match x.toNat? with
    | some n => .ok (min n maxIndex)
    | none => .error (.notWhole form index)
  | _ => .error (.notWhole form index)

/-- The element of a group at an index. -/
def elementAt (form : Special) (value : Sexp) (items : List Sexp) (index : Nat) :
    Except ExpandError Sexp :=
  match items[index]? with
  | some item => .ok item
  | none => .error (.outOfRange form index value)

/-- A value as part of a rejection: a string by its content, anything else in source notation. -/
def reasonText : Sexp → String
  | .string content => content
  | e => e.text

/-- A group of the same bracket as `value`. -/
def regroup (value : Sexp) (items : List Sexp) : Sexp :=
  match value with
  | .group bracket _ => .group bracket items
  | _ => .group .round items

mutual

/-- The value of an expression in a macro body. -/
def eval (env : Bindings) : Sexp → Except ExpandError Sexp
  | .number x => .ok (.number x)
  | .string content => .ok (.string content)
  | .regex pattern flags => .ok (.regex pattern flags)
  | .symbol name => .ok ((env.get? name).getD (.symbol name))
  | .group .round (.symbol name :: operands) =>
    match env.get? name with
    | some value => do return .group .round (value :: (← evalAll env operands))
    | none =>
      match Special.ofName? name with
      | some .fail => do
        let values ← evalAll env operands
        .error (.rejected (" ".intercalate (values.map reasonText)))
      | some .list => do return .group .round (← evalAll env operands)
      | some form => evalSpecial env form operands
      | none => do
        let values ← evalAll env operands
        return (Constant.fold? name values).getD (.group .round (.symbol name :: values))
  | .group bracket items => do return .group bracket (← evalAll env items)

/-- The values of expressions, from left to right. -/
def evalAll (env : Bindings) : List Sexp → Except ExpandError (List Sexp)
  | [] => .ok []
  | e :: es => do return (← eval env e) :: (← evalAll env es)

/-- The value of a special form that looks at its operands one by one. -/
def evalSpecial (env : Bindings) : Special → List Sexp → Except ExpandError Sexp
  | .quote, [e] => .ok e
  | .quote, es => .ok (.group .round es)
  | .choose, [condition, yes] => do
    let value ← eval env condition
    match value.truth? with
    | some true => eval env yes
    | some false => return .symbol "null"
    | none => return .group .round [.symbol "if", value, ← eval env yes]
  | .choose, [condition, yes, no] => do
    let value ← eval env condition
    match value.truth? with
    | some true => eval env yes
    | some false => eval env no
    | none => return .group .round [.symbol "if", value, ← eval env yes, ← eval env no]
  | .isSymbol, [e] => do return .ofBool (← eval env e).isSymbol
  | .isNumber, [e] => do return .ofBool (← eval env e).isNumber
  | .isString, [e] => do return .ofBool (← eval env e).isString
  | .isForm, [e] => do return .ofBool (← eval env e).elements?.isSome
  | .count, [e] => do
    let items ← elementsFor .count (← eval env e)
    return .number (.ofNat items.length)
  | .nth, [e, index] => do
    let value ← eval env e
    let items ← elementsFor .nth value
    elementAt .nth value items (← indexFor .nth (← eval env index))
  | .first, [e] => do
    let value ← eval env e
    let items ← elementsFor .first value
    elementAt .first value items 0
  | .rest, [e] => do
    let value ← eval env e
    let items ← elementsFor .rest value
    return value.regroup items.tail
  | form, es => .error (.operandCount form es.length)

end

end Sexp

end FormScript
