import FormScript.Sexp.Basic
import FormScript.Number.Notation
import FormScript.Text.Printable

/-!
# Inspection notation

`Sexp.inspect` shows the structure of an expression on one line: every node with the name of its
kind, and strings with the characters that cannot be shown written as escapes.
-/

namespace FormScript

/-- A code point in hexadecimal, without leading zeros. -/
def codePoint (c : Char) : String := String.ofList (Nat.toDigits 16 c.toNat)

/-- A character as it is shown inside a quoted text. -/
def inspectChar (c : Char) : String :=
  match c with
  | '\x00' => "\\0"
  | '\t' => "\\t"
  | '\n' => "\\n"
  | '\r' => "\\r"
  | '"' => "\\\""
  | '\\' => "\\\\"
  | c => if isPrintable c then c.toString else "\\u\x7b" ++ codePoint c ++ "\x7d"

/-- A text in quotes, with escapes for what cannot be shown. -/
def inspectText (s : String) : String :=
  "\"" ++ String.join (s.toList.map inspectChar) ++ "\""

namespace Sexp

/-- What inspection calls a group. -/
def groupName : Bracket → String
  | .round => "List"
  | .square => "Array"
  | .curly => "Object"

mutual

/-- An expression in inspection notation. -/
def inspect : Sexp → String
  | .number value => "Number(" ++ value.inspect ++ ")"
  | .symbol name => "Symbol(" ++ inspectText name ++ ")"
  | .string content => "Str(" ++ inspectText content ++ ")"
  | .regex pattern flags =>
    "Regex \x7b pattern: " ++ inspectText pattern ++ ", flags: " ++ inspectText flags ++ " \x7d"
  | .group bracket items =>
    groupName bracket ++ "([" ++ ", ".intercalate (inspectAll items) ++ "])"

/-- Expressions in inspection notation, each by itself. -/
def inspectAll : List Sexp → List String
  | [] => []
  | e :: es => inspect e :: inspectAll es

end

end Sexp

end FormScript
