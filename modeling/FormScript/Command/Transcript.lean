/-!
# Transcripts

What a command leaves behind: its exit code and what it wrote on the two output channels.
-/

namespace FormScript.Command

/-- The visible result of a command. -/
structure Transcript where
  exitCode : Nat
  out : String
  err : String
deriving DecidableEq

namespace Transcript

def success (out err : String) : Transcript := ⟨0, out, err⟩

/-- A failure with its report after what was already written. -/
def failure (out err report : String) : Transcript := ⟨1, out, err ++ "Error: " ++ report ++ "\n"⟩

end Transcript

/-- Lines, each ended by a line feed. -/
def lines (ls : List String) : String := String.join (ls.map (· ++ "\n"))

/-- A report of a failure in a context and of what caused it. -/
def withCause (context cause : String) : String := context ++ "\n\nCaused by:\n    " ++ cause

end FormScript.Command
