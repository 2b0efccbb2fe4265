/-!
# Arity contracts

How many operands a form takes: at least some number, at most another if there is a bound, and
possibly an even number only.
-/

namespace FormScript

/-- A contract on the number of operands. -/
structure Arity where
  min : Nat
  max : Option Nat
  even : Bool
deriving DecidableEq

/-- How a number of operands violates a contract. -/
inductive ArityViolation where
  /-- There is a single number of operands that is right. -/
  | exactly (n : Nat)
  | insufficient
  | excessive
  | odd
deriving DecidableEq

namespace ArityViolation

def message : ArityViolation → String
  | .exactly n => "required exactly " ++ toString n ++ " argument(s)"
  | .insufficient => "insufficient arguments"
  | .excessive => "excessive arguments"
  | .odd => "arguments number must be even"

end ArityViolation

namespace Arity

def exactly (n : Nat) : Arity := ⟨n, some n, false⟩

def between (min max : Nat) : Arity := ⟨min, some max, false⟩

def atLeast (min : Nat) : Arity := ⟨min, none, false⟩

def evenAtLeast (min : Nat) : Arity := ⟨min, none, true⟩

/-- Any number of operands. -/
def any : Arity := atLeast 0

/-- The violation by `n` operands, if there is one. -/
def violation? (a : Arity) (n : Nat) : Option ArityViolation :=
  if a.max = some a.min ∧ n ≠ a.min then some (.exactly a.min)
  else if n < a.min then some .insufficient
  else if a.max.any fun max => decide (max < n) then some .excessive
  else if a.even ∧ n % 2 ≠ 0 then some .odd
  else none

end Arity

end FormScript
