import FormScript.Number.Decimal

/-!
# Written numbers

`Number.text` is the spelling used in programs and in lowered text: whole numbers below `10 ^ 21`
are written out exactly, all others with the fewest digits that read back, and never with an
exponent. `Number.inspect` is the spelling used when an expression is shown for inspection: always
a fraction or an exponent, and an exponent for very large and very small magnitudes.
-/

namespace FormScript

/-- A run of `n` zeros. -/
def zeros (n : Nat) : String := String.ofList (List.replicate n '0')

namespace Decimal

/-- The digits as characters, the most significant first. -/
def digitChars (d : Decimal) : List Char := Nat.toDigits 10 d.digits

/-- Positional notation; `whole` is written after the digits of a decimal without fraction. -/
def positional (d : Decimal) (whole : String) : String :=
  let digits := d.digitChars
  if 0 ≤ d.exponent then String.ofList digits ++ zeros d.exponent.toNat ++ whole
  else
    let places := (-d.exponent).toNat
    if places < digits.length then
      String.ofList (digits.take (digits.length - places)) ++ "." ++
        String.ofList (digits.drop (digits.length - places))
    else "0." ++ zeros (places - digits.length) ++ String.ofList digits

/-- The power of ten of the first digit. -/
def magnitude (d : Decimal) : Int := d.exponent + d.digitChars.length - 1

/-- Scientific notation: one digit, the others after a point, and the power of ten. -/
def scientific (d : Decimal) : String :=
  let tail := d.digitChars.drop 1
  String.ofList (d.digitChars.take 1) ++ (if tail.isEmpty then "" else "." ++ String.ofList tail) ++
    "e" ++ toString d.magnitude

end Decimal

namespace Number

/-- The text of a sign. -/
def signText (negative : Bool) : String := if negative then "-" else ""

/-- Whole numbers below this bound are written with all their digits. -/
def exactBound : Nat := Nat.pow 10 21

/-- The spelling in programs; zero has no sign. -/
def text : Number → String
  | .nan => "NaN"
  | .infinite negative => signText negative ++ "Infinity"
  | .finite negative rank =>
    if rank.val = 0 then "0"
    else match (finite negative rank).wholeMagnitude? with
      | some n =>
        if n < exactBound then signText negative ++ toString n
        else signText negative ++ (Decimal.shortest rank).positional ""
      | none => signText negative ++ (Decimal.shortest rank).positional ""

/-- The spelling for inspection: positional from `10 ^ -4` up to `10 ^ 16`, always with a point
    there, and scientific elsewhere. -/
def inspect : Number → String
  | .nan => "NaN"
  | .infinite negative => signText negative ++ "inf"
  | .finite negative rank =>
    if rank.val = 0 then signText negative ++ "0.0"
    else
      let d := Decimal.shortest rank
      if -4 ≤ d.magnitude ∧ d.magnitude < 16 then signText negative ++ d.positional ".0"
      else signText negative ++ d.scientific

end Number

end FormScript
