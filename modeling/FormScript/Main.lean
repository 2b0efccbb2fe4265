import FormScript.Command.Compile
import FormScript.Command.Tokens

/-!
# Command lines

The programs themselves: `main` compiles the files named by its arguments, and
`FormScript.showTokens` shows the expressions on its standard input.
-/

namespace FormScript

open Build Command

/-- The fault that an error of the system stands for. -/
def faultOf (error : IO.Error) : FileFault :=
  match error with
  | .noFileOrDirectory .. => .notFound
  | .inappropriateType _ code _ =>
    if code = 20 ∨ code = -20 then .notADirectory
    else if code = 21 ∨ code = -21 then .isADirectory
    else .refused (toString error)
  | .invalidArgument _ code _ =>
    if code = 36 ∨ code = -36 then .nameTooLong else .refused (toString error)
  | _ => .refused (toString error)

/-- The result of an action, or the fault it met. -/
def attempted {α : Type} (action : IO α) : IO (Except FileFault α) := do
  try
    return .ok (← action)
  catch error =>
    return .error (faultOf error)

/-- Does something with a path, which must be a text here. -/
def atPath {α : Type} (path : Path) (action : String → IO α) : IO (Except FileFault α) :=
  match path.text? with
  | some text => attempted (action text)
  | none => return .error (.refused "path is not valid text")

instance : FileStore IO where
  kindOf path := do
    match ← atPath path fun text => IO.FS.readBinFile text with
    | .ok _ => return .ok .file
    | .error .isADirectory => return .ok .folder
    | .error fault => return .error fault
  openToRead path := atPath path fun text => do
    let _ ← IO.FS.Handle.mk text .read
  read path := atPath path fun text => IO.FS.readBinFile text
  write path content := atPath path fun text => IO.FS.writeBinFile text content
  remove path := atPath path fun text => IO.FS.removeFile text

/-- Writes a transcript and gives back its exit code. -/
def report (t : Transcript) : IO UInt32 := do
  IO.print t.out
  IO.eprint t.err
  return t.exitCode.toUInt32

/-- Everything up to the end of a stream, after what was already read. -/
partial def readToEnd (stream : IO.FS.Stream) (content : ByteArray) : IO ByteArray := do
  let chunk ← stream.read 65536
  if chunk.isEmpty then return content else readToEnd stream (content ++ chunk)

/-- Shows the expressions on the standard input. -/
def showTokens : IO UInt32 := do
  report (tokens (← readToEnd (← IO.getStdin) .empty))

end FormScript

/-- Compiles the files named by the arguments. -/
def main (args : List String) : IO UInt32 := do
  FormScript.report (← FormScript.Command.compile (args.map FormScript.ByteString.ofText))
