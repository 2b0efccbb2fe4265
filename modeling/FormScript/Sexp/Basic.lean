import FormScript.Number.Basic

/-!
# Expressions

The tree that reading a program gives: numbers, symbols, strings, regular expressions, and groups in
one of three brackets. A string keeps its escapes as they were written.
-/

namespace FormScript

/-- The three pairs of brackets. -/
inductive Bracket where
  | round
  | square
  | curly
deriving DecidableEq

namespace Bracket

def opening : Bracket → Char
  | .round => '('
  | .square => '['
  | .curly => '\x7b'

def closing : Bracket → Char
  | .round => ')'
  | .square => ']'
  | .curly => '\x7d'

/-- What diagnostics call the bracket. -/
def name : Bracket → String
  | .round => "parenthesis"
  | .square => "square bracket"
  | .curly => "curly bracket"

/-- The bracket that `c` opens. -/
def ofOpening? (c : Char) : Option Bracket :=
  if c = '(' then some .round
  else if c = '[' then some .square
  else if c = '\x7b' then some .curly
  else none

/-- The bracket that `c` closes. -/
def ofClosing? (c : Char) : Option Bracket :=
  if c = ')' then some .round
  else if c = ']' then some .square
  else if c = '\x7d' then some .curly
  else none

end Bracket

/-- An expression. -/
inductive Sexp where
  | number (value : Number)
  | symbol (name : String)
  /-- The text between the quotes, escapes as written. -/
  | string (content : String)
  | regex (pattern flags : String)
  | group (bracket : Bracket) (items : List Sexp)
deriving Inhabited

namespace Sexp

/-- The name of a symbol. -/
def symbol? : Sexp → Option String
  | .symbol name => some name
  | _ => none

def isSymbol (e : Sexp) : Bool := e.symbol?.isSome

def isNumber : Sexp → Bool
  | .number _ => true
  | _ => false

def isString : Sexp → Bool
  | .string _ => true
  | _ => false

/-- The elements of a group in any bracket. -/
def elements? : Sexp → Option (List Sexp)
  | .group _ items => some items
  | _ => none

/-- What diagnostics call an expression of this kind. -/
def kind : Sexp → String
  | .number _ => "number"
  | .symbol _ => "symbol"
  | .string _ => "string"
  | .regex _ _ => "regex"
  | .group .round _ => "form"
  | .group .square _ => "array"
  | .group .curly _ => "object"

/-- A truth value as a symbol. -/
def ofBool (b : Bool) : Sexp := .symbol (if b then "true" else "false")

mutual

/-- Equality of expressions, with numeric equality of numbers: "not a number" differs from itself,
    and the two zeros are the same. -/
def equals : Sexp → Sexp → Bool
  | .number x, .number y => x.equals y
  | .symbol s, .symbol t => decide (s = t)
  | .string s, .string t => decide (s = t)
  | .regex p f, .regex q g => decide (p = q) && decide (f = g)
  | .group b xs, .group c ys => decide (b = c) && equalsAll xs ys
  | _, _ => false

/-- Equality of lists of expressions, element by element. -/
def equalsAll : List Sexp → List Sexp → Bool
  | [], [] => true
  | x :: xs, y :: ys => equals x y && equalsAll xs ys
  | _, _ => false

end

end Sexp

end FormScript
