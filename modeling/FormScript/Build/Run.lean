import FormScript.Build.FileStore
import FormScript.Session

/-!
# Building files

Files are compiled one after the other in one session, so that the macros of one are known to those
after it. All inputs are checked before the first is compiled. The old output of a file is removed
before it is compiled, so that a failure leaves none, unless the removal fails, which is ignored. The
first failure of anything else ends the run.
-/

namespace FormScript.Build

variable {m : Type → Type} [Monad m] [FileStore m]

/-- Why a build stops, and at which path. -/
inductive BuildError where
  | inaccessible (path : Path) (fault : FileFault)
  | notAFile (path : Path)
  | unusable (path : Path) (fault : FileFault)
  | uncompilable (path : Path) (error : CompileError)

namespace BuildError

def message : BuildError → String
  | .inaccessible path fault => path.display ++ ": cannot access input: " ++ fault.message
  | .notAFile path => path.display ++ ": not a regular file"
  | .unusable path fault => path.display ++ ": " ++ fault.message
  | .uncompilable path error => path.display ++ ": " ++ error.message

end BuildError

/-- A compiled file: where it was written to, and how many bytes it has. -/
structure Report where
  output : Path
  bytes : Nat
deriving DecidableEq

namespace Report

def line (r : Report) : String := r.output.display ++ ": " ++ toString r.bytes ++ " bytes"

end Report

/-- Checks that every path names a file that can be opened. -/
def checkInputs : List Path → m (Except BuildError Unit)
  | [] => return .ok ()
  | path :: rest => do
    match ← FileStore.kindOf path with
    | .error fault => return .error (.inaccessible path fault)
    | .ok .folder => return .error (.notAFile path)
    | .ok .file =>
      match ← FileStore.openToRead path with
      | .error fault => return .error (.inaccessible path fault)
      | .ok () => checkInputs rest

/-- Compiles the file at a path and writes the result to its output path. -/
def compileFile (session : Session) (input : Path) : m (Except BuildError Report × Session) := do
  let output := outputPath input
  -- an old output that cannot be removed stays
  let _ ← FileStore.remove output
  match ← FileStore.read input with
  | .error fault => return (.error (.unusable input fault), session)
  | .ok content =>
    match String.fromUTF8? content with
    | none => return (.error (.unusable input .notText), session)
    | some text =>
      match (session.setSource (.ofText text.toList)).compile with
      | (.error error, session) => return (.error (.uncompilable input error), session)
      | (.ok code, session) =>
        match ← FileStore.write output code.toUTF8 with
        | .error fault => return (.error (.unusable output fault), session)
        | .ok () => return (.ok ⟨output, code.utf8ByteSize⟩, session)

/-- Compiles files in order up to the first failure. -/
def compileFiles (session : Session) : List Path → m (List Report × Option BuildError)
  | [] => return ([], none)
  | input :: rest => do
    match ← compileFile session input with
    | (.error error, _) => return ([], some error)
    | (.ok report, session) =>
      let (reports, error) ← compileFiles session rest
      return (report :: reports, error)

/-- Checks all inputs, then compiles them in a new session. -/
def build (inputs : List Path) : m (List Report × Option BuildError) := do
  match ← checkInputs inputs with
  | .error error => return ([], some error)
  | .ok () => compileFiles (.ofText "") inputs

end FormScript.Build
