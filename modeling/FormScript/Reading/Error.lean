import FormScript.Sexp.Basic

/-!
# Why a text cannot be read

A `ReadFault` is the cause found by the reader. A text is *malformed* if no continuation could mend
it, and *incomplete* if it merely ends too early. A `ReadError` is what a caller sees: the severity
and a message, to which callers put the context in front.
-/

namespace FormScript

/-- How deep groups may nest. -/
def maxNesting : Nat := 100

/-- Whether more text could still make the input readable. -/
inductive Severity where
  | malformed
  | incomplete
deriving DecidableEq

/-- What stopped the reader. -/
inductive ReadFault where
  /-- A closing bracket that matches no open one. -/
  | unexpectedClosing (bracket : Bracket)
  /-- An opening bracket inside `maxNesting` open ones. -/
  | nestedTooDeeply
  | unterminatedString
  | unterminatedRegex
  /-- The text ends inside a group. -/
  | unterminatedGroup (bracket : Bracket)
deriving DecidableEq

namespace ReadFault

def severity : ReadFault → Severity
  | .unexpectedClosing _ => .malformed
  | .nestedTooDeeply => .malformed
  | .unterminatedString => .incomplete
  | .unterminatedRegex => .incomplete
  | .unterminatedGroup _ => .incomplete

def message : ReadFault → String
  | .unexpectedClosing b =>
    "unexpected `" ++ b.closing.toString ++ "`: " ++ b.name ++ " pair not open"
  | .nestedTooDeeply => "forms nested too deeply (more than " ++ toString maxNesting ++ ")"
  | .unterminatedString => "unterminated string"
  | .unterminatedRegex => "unterminated regex"
  | .unterminatedGroup b => "unterminated form: expected `" ++ b.closing.toString ++ "`"

end ReadFault

/-- A failed reading as reported to the caller. -/
structure ReadError where
  severity : Severity
  detail : String
deriving DecidableEq

namespace ReadError

/-- Puts context in front of the detail. -/
def annotate (e : ReadError) (context : String) : ReadError :=
  { e with detail := context ++ ": " ++ e.detail }

/-- The report of a fault found in the input described by `context`. -/
def ofFault (fault : ReadFault) (context : String) : ReadError :=
  (ReadError.mk fault.severity fault.message).annotate context

def message (e : ReadError) : String :=
  match e.severity with
  | .malformed => "error in input: " ++ e.detail
  | .incomplete => "incomplete input: " ++ e.detail

end ReadError

end FormScript
