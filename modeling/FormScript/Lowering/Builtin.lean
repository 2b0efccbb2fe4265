import FormScript.Lowering.Arity
import FormScript.Lowering.Operator

/-!
# Built-in forms

The names with a meaning of their own at the head of a form, and the contract of each on the number
of its operands.
-/

namespace FormScript

/-- A built-in form. -/
inductive Builtin where
  /-- The operands in source notation as one string. -/
  | words
  | arrayOf
  | objectOf
  /-- The operands in source notation, kept exactly, as one string. -/
  | quotation
  | function
  /-- A function of one parameter, written `_`. -/
  | unary
  /-- A function called on the spot. -/
  | closure
  | giveBack
  | giveBackIf
  /-- An argument of the enclosing function by its index. -/
  | argument
  /-- A call of the result of a call, and so on. -/
  | chain
  /-- A value passed through functions in turn. -/
  | passThrough
  | assign
  | declare
  | index
  | store
  | member
  | construct
  | instanceTest
  | conditional
  | branches
  | cases
  | loop
  | iteration
  | skip
  | leave
  | block
  | nothing
  | attempt
  | raise
  | raiseError
  | raiseTypeError
  | assertion
  | exclusiveOr
  | negation
  | complement
  | macroDefinition
  | operator (op : Operator)
deriving DecidableEq

namespace Builtin

/-- The built-in forms that are no infix operators. -/
def named : List Builtin :=
  [.words, .arrayOf, .objectOf, .quotation, .function, .unary, .closure, .giveBack, .giveBackIf,
    .argument, .chain, .passThrough, .assign, .declare, .index, .store, .member, .construct,
    .instanceTest, .conditional, .branches, .cases, .loop, .iteration, .skip, .leave, .block,
    .nothing, .attempt, .raise, .raiseError, .raiseTypeError, .assertion, .exclusiveOr, .negation,
    .complement, .macroDefinition]

/-- All built-in forms. -/
def all : List Builtin := named ++ Operator.all.map .operator

/-- The name in programs. -/
def name : Builtin → String
  | .words => "_str"
  | .arrayOf => "_arr"
  | .objectOf => "_obj"
  | .quotation => "quote"
  | .function => "fun"
  | .unary => "lam"
  | .closure => "closure"
  | .giveBack => "ret"
  | .giveBackIf => "ifret"
  | .argument => "args"
  | .chain => "chain"
  | .passThrough => "fapply"
  | .assign => "def"
  | .declare => "let"
  | .index => "get"
  | .store => "set"
  | .member => "."
  | .construct => "new"
  | .instanceTest => "instanceof"
  | .conditional => "if"
  | .branches => "cond"
  | .cases => "switch"
  | .loop => "while"
  | .iteration => "iter"
  | .skip => "continue"
  | .leave => "break"
  | .block => "block"
  | .nothing => "nop"
  | .attempt => "try"
  | .raise => "throw"
  | .raiseError => "Error"
  | .raiseTypeError => "TypeError"
  | .assertion => "assert"
  | .exclusiveOr => "xor"
  | .negation => "neg"
  | .complement => "!"
  | .macroDefinition => "macro"
  | .operator op => op.name

/-- The built-in form of a name. -/
def ofName? (name : String) : Option Builtin := all.find? fun b => decide (b.name = name)

/-- The contract on the number of operands, a leading label not counted. A macro definition has
    rules of its own. -/
def arity : Builtin → Arity
  | .words => .any
  | .arrayOf => .any
  | .objectOf => .evenAtLeast 0
  | .quotation => .any
  | .function => .atLeast 2
  | .unary => .atLeast 1
  | .closure => .atLeast 1
  | .giveBack => .exactly 1
  | .giveBackIf => .exactly 2
  | .argument => .exactly 1
  | .chain => .atLeast 2
  | .passThrough => .atLeast 2
  | .assign => .evenAtLeast 2
  | .declare => .evenAtLeast 2
  | .index => .atLeast 2
  | .store => .atLeast 3
  | .member => .atLeast 2
  | .construct => .atLeast 1
  | .instanceTest => .exactly 2
  | .conditional => .between 2 3
  | .branches => .atLeast 2
  | .cases => .atLeast 3
  | .loop => .between 3 4
  | .iteration => .between 2 3
  | .skip => .between 0 1
  | .leave => .between 0 1
  | .block => .atLeast 1
  | .nothing => .any
  | .attempt => .between 2 3
  | .raise => .exactly 1
  | .raiseError => .between 1 3
  | .raiseTypeError => .between 1 3
  | .assertion => .exactly 2
  | .exclusiveOr => .atLeast 2
  | .negation => .exactly 1
  | .complement => .exactly 1
  | .macroDefinition => .any
  | .operator _ => .atLeast 2

/-- Whether a label may stand before the operands. -/
def takesLabel : Builtin → Bool
  | .loop => true
  | .iteration => true
  | _ => false

end Builtin

end FormScript
