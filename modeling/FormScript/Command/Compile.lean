import FormScript.Build.Run
import FormScript.Command.Transcript

/-!
# The compile command

The arguments are paths of programs. An argument that looks like an option is refused before
anything else is done; only a text can look like one. A line on the standard output reports every file
compiled.
-/

namespace FormScript.Command

def usage : String := "usage: liscript <file.lisp>..."

/-- Whether an argument looks like an option. -/
def isOption (arg : ByteString) : Bool := arg.text?.any fun text => "--".toList.isPrefixOf text.toList

/-- Runs the command on its arguments. -/
def compile {m : Type → Type} [Monad m] [Build.FileStore m] (args : List ByteString) :
    m Transcript := do
  match args.find? isOption with
  | some arg => return .failure "" "" ("unexpected option " ++ arg.display ++ "\n" ++ usage)
  | none =>
    if args.isEmpty then return ⟨1, "", usage ++ "\n"⟩
    else
      let (reports, error) ← Build.build args
      let out := lines (reports.map (·.line))
      match error with
      | none => return .success out ""
      | some error => return .failure out "" error.message

end FormScript.Command
