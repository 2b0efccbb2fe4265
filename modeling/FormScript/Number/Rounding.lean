import FormScript.Number.Basic

/-!
# Rounding

An exact ratio of units is rounded to the nearest magnitude, a tie to the even rank. Beyond the
greatest finite magnitude the result is infinite.
-/

namespace FormScript.Number

/-- The quotient rounded to the nearest whole number, a tie to the even one. -/
def roundDiv (num den : Nat) : Nat :=
  let quotient := num / den
  let twice := 2 * (num % den)
  if twice < den then quotient
  else if den < twice then quotient + 1
  else quotient + quotient % 2

/-- The rank of the magnitude nearest to `num / den` units. With `shift` doublings of the spacing,
    the rank is `shift` binades above the rounded multiple of that spacing; a multiple rounded up to
    the end of its binade is the first rank of the next one. -/
def nearestRank (num den : Nat) : Nat :=
  let shift := Nat.log2 (num / den) - 52
  shift * binade + roundDiv num (den * Nat.pow 2 shift)

/-- The number nearest to `num / den` units, with a sign. -/
def ofRatio (negative : Bool) (num den : Nat) : Number :=
  if h : nearestRank num den < infinityRank then .finite negative ⟨nearestRank num den, h⟩
  else .infinite negative

/-- The number nearest to a natural number. -/
def ofNat (n : Nat) : Number := ofRatio false (n * unitsPerOne) 1

end FormScript.Number
