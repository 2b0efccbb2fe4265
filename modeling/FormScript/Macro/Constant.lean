import FormScript.Number.Arithmetic
import FormScript.Sexp.Basic

/-!
# Constants in macro bodies

Which expressions have a truth value that is known at once, and which operators can be carried out
on constant operands: arithmetic and comparisons of numbers, and equality of two strings.
-/

namespace FormScript

namespace Sexp

/-- The truth value of a constant; `none` if only a run of the program can tell. -/
def truth? : Sexp → Option Bool
  | .number x => some (!(x.isZero || decide (x = .nan)))
  | .string content => some (!content.isEmpty)
  | .regex _ _ => some true
  | .group .round _ => none
  | .group .square _ => some true
  | .group .curly _ => some true
  | .symbol name =>
    if name = "true" then some true
    else if name = "false" ∨ name = "null" ∨ name = "undefined" ∨ name = "NaN" then some false
    else none

/-- The values, if all expressions are numbers. -/
def numbers? : List Sexp → Option (List Number)
  | [] => some []
  | .number x :: es => (numbers? es).map (x :: ·)
  | _ :: _ => none

end Sexp

namespace Constant

/-- The arithmetic operators. -/
def arithmetic? (op : String) : Option (Number → Number → Number) :=
  match op with
  | "+" => some Number.add
  | "-" => some Number.sub
  | "*" => some Number.mul
  | "/" => some Number.div
  | "%" => some Number.rem
  | _ => none

/-- The comparisons that can be chained. -/
def comparison? (op : String) : Option (Number → Number → Bool) :=
  match op with
  | "<" => some Number.less
  | ">" => some fun a b => b.less a
  | "<=" => some Number.atMost
  | ">=" => some fun a b => b.atMost a
  | "=" => some Number.equals
  | "same" => some Number.equals
  | _ => none

/-- Whether every two neighbours are related. -/
def chained (rel : Number → Number → Bool) : List Number → Bool
  | x :: y :: rest => rel x y && chained rel (y :: rest)
  | _ => true

/-- An operator applied to two or more numbers, from left to right. -/
def ofNumbers? (op : String) (x : Number) (xs : List Number) : Option Sexp :=
  match arithmetic? op, comparison? op with
  | some f, _ => some (.number (xs.foldl f x))
  | none, some rel => some (.ofBool (chained rel (x :: xs)))
  | none, none =>
    match op, xs with
    | "!=", [y] => some (.ofBool (!x.equals y))
    | _, _ => none

/-- An equality test of two strings, by what is written between their quotes. -/
def ofStrings? (op : String) (s t : String) : Option Sexp :=
  match op with
  | "=" => some (.ofBool (decide (s = t)))
  | "same" => some (.ofBool (decide (s = t)))
  | "!=" => some (.ofBool (decide (s ≠ t)))
  | _ => none

/-- The result of an operator on constant operands, if it can be carried out. -/
def fold? (op : String) (operands : List Sexp) : Option Sexp :=
  match Sexp.numbers? operands, operands with
  | some (x :: y :: rest), _ => ofNumbers? op x (y :: rest)
  | _, [.string s, .string t] => ofStrings? op s t
  | _, _ => none

end Constant

end FormScript
