import FormScript.Number.Decimal

/-!
# Numerals

A word is a numeral if it is an optional minus, digits with an optional point and at least one digit
around it, and an optional exponent of digits. An `e` at the end with no digits after it is allowed
and means nothing. Digits are the ten ASCII digits.
-/

namespace FormScript

/-- A word taken apart as a numeral. -/
structure Numeral where
  negative : Bool
  /-- The digits before the point. -/
  whole : List Char
  /-- The digits after the point, if there is a point. -/
  fraction : Option (List Char)
  /-- The digits after the `e`, if there is an `e`. -/
  exponent : Option (List Char)
deriving DecidableEq

namespace Numeral

/-- The number that a run of digits writes. -/
def valueOf (digits : List Char) : Nat :=
  digits.foldl (fun n c => 10 * n + (c.toNat - '0'.toNat)) 0

/-- A run of digits after the marker `mark`, if the text begins with it, and what follows. -/
def marked (mark : Char) : List Char → Option (List Char) × List Char
  | [] => (none, [])
  | c :: cs =>
    if c = mark then (some (cs.takeWhile Char.isDigit), cs.dropWhile Char.isDigit)
    else (none, c :: cs)

/-- The digits before and after the point. -/
def significand (n : Numeral) : List Char := n.whole ++ n.fraction.getD []

/-- Takes a word apart; `none` if it is not a numeral. -/
def ofWord? (word : List Char) : Option Numeral :=
  let negative := decide (word.head? = some '-')
  let unsigned := if negative then word.tail else word
  let (fraction, afterFraction) := marked '.' (unsigned.dropWhile Char.isDigit)
  let (exponent, afterExponent) := marked 'e' afterFraction
  let n : Numeral := ⟨negative, unsigned.takeWhile Char.isDigit, fraction, exponent⟩
  if afterExponent.isEmpty ∧ ¬ n.significand.isEmpty then some n else none

/-- The decimal that a numeral writes, without its sign. -/
def decimal (n : Numeral) : Decimal :=
  ⟨valueOf n.significand, (valueOf (n.exponent.getD []) : Int) - (n.fraction.getD []).length⟩

/-- The number nearest to what a numeral writes. -/
def value (n : Numeral) : Number := n.decimal.toNumber n.negative

end Numeral

end FormScript
