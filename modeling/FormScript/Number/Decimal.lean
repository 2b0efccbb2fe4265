import FormScript.Number.Rounding

/-!
# Decimals

A decimal is `digits * 10 ^ exponent`. `Decimal.toNumber` rounds it to the nearest number;
`Decimal.shortest` finds the decimal with the fewest digits that rounds back to a given magnitude,
and of those the nearest. Both work on natural numbers: grid `j` consists of the multiples of
`10 ^ (j - 324)`, and the finest grid is finer than a unit.
-/

namespace FormScript

/-- The decimal `digits * 10 ^ exponent`. -/
structure Decimal where
  digits : Nat
  exponent : Int
deriving DecidableEq

namespace Decimal

open Number

/-- The nearest number with the given sign. From `10 ^ 309` on every magnitude is infinite, so no
    greater power is formed. -/
def toNumber (negative : Bool) (d : Decimal) : Number :=
  if d.digits = 0 then zero negative
  else if 308 < d.exponent then .infinite negative
  else if 0 ≤ d.exponent then
    ofRatio negative (d.digits * Nat.pow 10 d.exponent.toNat * unitsPerOne) 1
  else
    ofRatio negative (d.digits * unitsPerOne) (Nat.pow 10 (-d.exponent).toNat)

/-! ## Fewest digits -/

/-- Steps of the finest grid in one. -/
def stepsPerOne : Nat := Nat.pow 10 324

/-- The distance of grid `j`, in steps of the finest grid times units per one. -/
def spacing (j : Nat) : Nat := unitsPerOne * Nat.pow 10 j

/-- Whether multiple `m` of grid `j` rounds to the magnitude of `rank`: it lies between the
    midpoints to the two neighbouring magnitudes, which themselves round to the even rank. -/
def roundsTo (rank j m : Nat) : Bool :=
  let low := (units (rank - 1) + units rank) * stepsPerOne
  let high := (units rank + units (rank + 1)) * stepsPerOne
  let point := 2 * (m * spacing j)
  if rank % 2 = 0 then decide (low ≤ point) && decide (point ≤ high)
  else decide (low < point) && decide (point < high)

/-- The multiple of grid `j` that rounds to `rank`, if there is one: the one below the magnitude or
    the one above it, of two the nearer, and the upper one if they are equally near. -/
def onGrid? (rank j : Nat) : Option Nat :=
  let magnitude := units rank * stepsPerOne
  let below := magnitude / spacing j
  match roundsTo rank j below, roundsTo rank j (below + 1) with
  | true, true => some (if 2 * (magnitude % spacing j) < spacing j then below else below + 1)
  | true, false => some below
  | false, true => some (below + 1)
  | false, false => none

/-- The hit on the coarsest of the grids `j`, `j - 1`, …, `0`. -/
def coarsest (rank : Nat) : Nat → Decimal
  | 0 => ⟨(onGrid? rank 0).getD (units rank * stepsPerOne / spacing 0), -324⟩
  | j + 1 =>
    match onGrid? rank (j + 1) with
    | some m => ⟨m, (j + 1 : Nat) - 324⟩
    | none => coarsest rank j

/-- A grid whose points other than zero are all beyond twice the magnitude, since `2 ^ 3 < 10`. -/
def firstGrid (rank : Nat) : Nat :=
  Nat.log2 (units rank * stepsPerOne / spacing 0) / 3 + 2

/-- The decimal with the fewest digits that rounds to the magnitude of `rank`. -/
def shortest (rank : Nat) : Decimal := coarsest rank (firstGrid rank)

end Decimal

end FormScript
