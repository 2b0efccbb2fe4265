import FormScript.Number.Rounding

/-!
# Arithmetic

Sum, difference, product and quotient are the exact results rounded once. The remainder is exact
and has the sign of the dividend.
-/

namespace FormScript.Number

/-- The number with the opposite sign. -/
def negate : Number → Number
  | .nan => .nan
  | .infinite negative => .infinite !negative
  | .finite negative rank => .finite (!negative) rank

/-- The value in units. -/
def signedUnits (negative : Bool) (rank : Nat) : Int :=
  if negative then -(units rank : Int) else units rank

/-- An exact sum of zero is negative only if both terms are. -/
def add : Number → Number → Number
  | .nan, _ => .nan
  | _, .nan => .nan
  | .infinite s, .infinite t => if s = t then .infinite s else .nan
  | .infinite s, .finite _ _ => .infinite s
  | .finite _ _, .infinite t => .infinite t
  | .finite s x, .finite t y =>
    let sum := signedUnits s x + signedUnits t y
    if sum = 0 then zero (s && t) else ofRatio (decide (sum < 0)) sum.natAbs 1

def sub (a b : Number) : Number := a.add b.negate

def mul : Number → Number → Number
  | .nan, _ => .nan
  | _, .nan => .nan
  | .infinite s, .infinite t => .infinite (s != t)
  | .infinite s, .finite t y => if y.val = 0 then .nan else .infinite (s != t)
  | .finite s x, .infinite t => if x.val = 0 then .nan else .infinite (s != t)
  | .finite s x, .finite t y => ofRatio (s != t) (units x * units y) unitsPerOne

def div : Number → Number → Number
  | .nan, _ => .nan
  | _, .nan => .nan
  | .infinite _, .infinite _ => .nan
  | .infinite s, .finite t _ => .infinite (s != t)
  | .finite s _, .infinite t => zero (s != t)
  | .finite s x, .finite t y =>
    if y.val = 0 then (if x.val = 0 then .nan else .infinite (s != t))
    else ofRatio (s != t) (units x * unitsPerOne) (units y)

/-- What is left of the dividend after taking away the divisor as often as it fits. -/
def rem : Number → Number → Number
  | .nan, _ => .nan
  | _, .nan => .nan
  | .infinite _, _ => .nan
  | .finite s x, .infinite _ => .finite s x
  | .finite s x, .finite _ y =>
    if y.val = 0 then .nan else ofRatio s (units x % units y) 1

end FormScript.Number
