/-!
# Numbers

The numbers of the language are the double-precision binary floating-point numbers. The finite
magnitudes are numbered in increasing order: the *rank* of a magnitude is how many smaller ones
there are. Every magnitude is a whole number of *units*, where a unit is the least positive
magnitude, `2 ^ -1074`. So order and equality are decided on ranks, and exact arithmetic is
arithmetic of natural numbers on units.
-/

namespace FormScript

namespace Number

/-- How many magnitudes share one exponent. -/
def binade : Nat := Nat.pow 2 52

/-- The rank that would follow the greatest finite magnitude. -/
def infinityRank : Nat := 2047 * binade

/-- How many units make one. -/
def unitsPerOne : Nat := Nat.pow 2 1074

end Number

/-- A double-precision number; there is a single "not a number". -/
inductive Number where
  | nan
  | infinite (negative : Bool)
  | finite (negative : Bool) (rank : Fin Number.infinityRank)
deriving DecidableEq

namespace Number

/-- The magnitude of a rank, in units: spaced by one unit in the first two binades, then by a
    distance that doubles with every further binade. -/
def units (rank : Nat) : Nat :=
  if rank < binade then rank else (binade + rank % binade) * Nat.pow 2 (rank / binade - 1)

/-- Zero, with a sign. -/
def zero (negative : Bool) : Number := .finite negative ⟨0, by decide⟩

/-- The weight of the sign in the interchange encoding. -/
def signBit : Nat := Nat.pow 2 63

/-- The interchange encoding: a sign bit above the rank. -/
def toBits : Number → Nat
  | .nan => infinityRank + binade / 2
  | .infinite negative => (if negative then signBit else 0) + infinityRank
  | .finite negative rank => (if negative then signBit else 0) + rank

/-- The number with the given 64-bit encoding. -/
def ofBits (bits : Nat) : Number :=
  let negative := decide (signBit ≤ bits)
  let rank := bits % signBit
  if h : rank < infinityRank then .finite negative ⟨rank, h⟩
  else if rank = infinityRank then .infinite negative
  else .nan

/-! ## Order -/

/-- The place of a number in the order of all numbers; both zeros have the same place. -/
def place? : Number → Option Int
  | .nan => none
  | .infinite negative => some (if negative then -(infinityRank : Int) else infinityRank)
  | .finite negative rank => some (if negative then -(rank.val : Int) else rank.val)

/-- Compares two places; nothing holds of "not a number". -/
def compareBy (rel : Int → Int → Bool) (a b : Number) : Bool :=
  match a.place?, b.place? with
  | some x, some y => rel x y
  | _, _ => false

/-- Numeric equality: zero equals minus zero, and "not a number" equals nothing. -/
def equals : Number → Number → Bool := compareBy (fun x y => decide (x = y))

def less : Number → Number → Bool := compareBy (fun x y => decide (x < y))

def atMost : Number → Number → Bool := compareBy (fun x y => decide (x ≤ y))

/-- Whether the number is zero, of either sign. -/
def isZero : Number → Bool
  | .finite _ rank => decide (rank.val = 0)
  | _ => false

/-! ## Whole numbers -/

/-- The magnitude as a natural number, if it is whole. -/
def wholeMagnitude? : Number → Option Nat
  | .finite _ rank =>
    if units rank % unitsPerOne = 0 then some (units rank / unitsPerOne) else none
  | _ => none

/-- The value as a natural number, if it is one; minus zero counts as zero. -/
def toNat? : Number → Option Nat
  | .finite true ⟨_ + 1, _⟩ => none
  | x => x.wholeMagnitude?

end Number

end FormScript
