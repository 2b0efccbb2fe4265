/-!
# Infix operators

The operators that are written between their operands, each with its name in programs and its
spelling in lowered text.
-/

namespace FormScript

/-- An infix operator. -/
inductive Operator where
  | and
  | or
  | equal
  | same
  | unequal
  | add
  | sub
  | mul
  | div
  | rem
  | addTo
  | subFrom
  | mulBy
  | divBy
  | remBy
  | less
  | greater
  | atMost
  | atLeast
  | shiftLeft
  | shiftRight
  | shiftUnsigned
  | bitAnd
  | bitOr
  | bitXor
  | inTurn
deriving DecidableEq

namespace Operator

/-- All operators, in the order of the table. -/
def all : List Operator :=
  [.and, .or, .equal, .same, .unequal, .add, .sub, .mul, .div, .rem, .addTo, .subFrom, .mulBy,
    .divBy, .remBy, .less, .greater, .atMost, .atLeast, .shiftLeft, .shiftRight, .shiftUnsigned,
    .bitAnd, .bitOr, .bitXor, .inTurn]

/-- The name in programs. -/
def name : Operator → String
  | .and => "and"
  | .or => "or"
  | .equal => "="
  | .same => "same"
  | .unequal => "!="
  | .add => "+"
  | .sub => "-"
  | .mul => "*"
  | .div => "/"
  | .rem => "%"
  | .addTo => "+="
  | .subFrom => "-="
  | .mulBy => "*="
  | .divBy => "/="
  | .remBy => "%="
  | .less => "<"
  | .greater => ">"
  | .atMost => "<="
  | .atLeast => ">="
  | .shiftLeft => "<<"
  | .shiftRight => ">>"
  | .shiftUnsigned => ">>>"
  | .bitAnd => "&"
  | .bitOr => "|"
  | .bitXor => "^"
  | .inTurn => "do"

/-- The spelling in lowered text; all but five are spelt as they are named. -/
def spelling : Operator → String
  | .and => "&&"
  | .or => "||"
  | .equal => "=="
  | .same => "==="
  | .inTurn => ","
  | op => op.name

end Operator

end FormScript
