import FormScript.Build.FileStore
import FormScript.Command.Transcript
import FormScript.Reading.Program
import FormScript.Sexp.Inspect
import FormScript.Sexp.Printer

/-!
# The tokens command

Reads a program from the standard input and shows its expressions: in source notation on the
standard output, one a line, and in inspection notation on the error channel.
-/

namespace FormScript.Command

/-- Shows what was read of a program. -/
def tokensOf (p : Program) : Transcript :=
  let out := lines (p.expressions.map Sexp.text)
  let err := lines (p.expressions.map Sexp.inspect)
  match p.error with
  | none => .success out err
  | some error =>
    .failure out err
      (withCause ("failed to parse input at " ++ p.reader.position.describe) error.message)

/-- Runs the command on the bytes of its input. -/
def tokens (input : ByteArray) : Transcript :=
  match String.fromUTF8? input with
  | some text => tokensOf (Reader.ofText text).readAll
  | none =>
    .failure "" ""
      (withCause "could not read input as UTF-8" Build.FileFault.notText.message)

end FormScript.Command
