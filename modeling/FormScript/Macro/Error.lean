import FormScript.Macro.Special
import FormScript.Sexp.Printer

/-!
# Why an expansion fails
-/

namespace FormScript

/-- What stopped the expansion of a macro call. -/
inductive ExpandError where
  /-- The call has not one argument for each parameter. -/
  | argumentCount (want got : Nat)
  | noBody
  /-- A `let` whose operands are not pairs. -/
  | unpairedLet
  /-- A `let` that binds something other than a symbol. -/
  | letTarget (target : Sexp)
  | operandCount (form : Special) (got : Nat)
  /-- An operand that should be a group. -/
  | notGroup (form : Special) (value : Sexp)
  /-- An index that is no natural number. -/
  | notWhole (form : Special) (index : Sexp)
  | outOfRange (form : Special) (index : Nat) (value : Sexp)
  /-- The body itself rejects the call. -/
  | rejected (reason : String)

namespace ExpandError

def message : ExpandError → String
  | .argumentCount want got =>
    "expected " ++ toString want ++ " argument(s), got " ++ toString got
  | .noBody => "macro has no body"
  | .unpairedLet => "let needs name / value pairs"
  | .letTarget target => "let: cannot bind to " ++ target.text
  | .operandCount form got =>
    form.name ++ " takes " ++ form.operands ++ " argument(s), got " ++ toString got
  | .notGroup form value => form.name ++ ": " ++ value.text ++ " is not a form"
  | .notWhole form index => form.name ++ ": index " ++ index.text ++ " is not a whole number"
  | .outOfRange form index value =>
    form.name ++ ": index " ++ toString index ++ " out of range for " ++ value.text
  | .rejected reason => "rejected: " ++ reason

end ExpandError

end FormScript
