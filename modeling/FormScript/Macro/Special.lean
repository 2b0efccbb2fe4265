/-!
# Special forms of macro bodies

The names that a macro body can use to take expressions apart and to decide between them. Each takes
a number of operands within a range; a form without an upper bound takes any number.
-/

namespace FormScript

/-- A special form of macro bodies. -/
inductive Special where
  /-- Its operand, untouched. -/
  | quote
  /-- Rejects the call. -/
  | fail
  /-- Picks a branch if the condition is a constant. -/
  | choose
  | isSymbol
  | isNumber
  | isString
  | isForm
  | count
  | nth
  | first
  | rest
  /-- Builds a form from its evaluated operands. -/
  | list
deriving DecidableEq

namespace Special

def name : Special → String
  | .quote => "quote"
  | .fail => "fail"
  | .choose => "if"
  | .isSymbol => "symbol?"
  | .isNumber => "number?"
  | .isString => "string?"
  | .isForm => "form?"
  | .count => "count"
  | .nth => "nth"
  | .first => "first"
  | .rest => "rest"
  | .list => "list"

def all : List Special :=
  [.quote, .fail, .choose, .isSymbol, .isNumber, .isString, .isForm, .count, .nth, .first, .rest,
    .list]

/-- The special form of a name. -/
def ofName? (name : String) : Option Special := all.find? fun s => decide (s.name = name)

/-- How diagnostics name the number of operands that a form takes. -/
def operands : Special → String
  | .choose => "2 to 3"
  | .nth => "2"
  | _ => "1"

end Special

end FormScript
