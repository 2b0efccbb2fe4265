import FormScript.Lowering.Lower
import FormScript.Reading.Reader

/-!
# Compiling texts

A session reads expressions from a source and lowers each as it is read, so that a macro is known to
the expressions after its definition. The macros stay when the session turns to another source, and
after a failure compiling can go on from where the reader stands.
-/

namespace FormScript

/-- Why a text does not compile. -/
inductive CompileError.Cause where
  | unreadable (error : ReadError)
  | refused (fault : Fault)

/-- A failed compilation and the place to look at: where reading stopped, or where the expression
    that cannot be lowered begins. -/
structure CompileError where
  position : Position
  cause : CompileError.Cause

namespace CompileError

def message (e : CompileError) : String :=
  e.position.describe ++ ": " ++
    match e.cause with
    | .unreadable error => "syntax error: " ++ error.message
    | .refused fault => fault.message

end CompileError

/-- A compiler at work. -/
structure Session where
  reader : Reader
  state : Lowering.State
  /-- Where the expression lowered last begins. -/
  formStart : Position

namespace Session

/-- The macros defined so far. -/
def registry (s : Session) : Registry := s.state.registry

/-- A session without macros at the beginning of a source. -/
def ofSource (source : Source) : Session := ⟨.ofSource source, .initial, .start⟩

/-- A session without macros over a text held whole. -/
def ofText (text : String) : Session := ofSource (.ofText text.toList)

/-- Turns to another source. -/
def setSource (s : Session) (source : Source) : Session :=
  { s with reader := .ofSource source, formStart := .start }

/-- Lowers one expression; a failure is reported at the current form. -/
def lower (s : Session) (e : Sexp) : Except CompileError String × Session :=
  match e.lowered s.state with
  | (.ok text, state) => (.ok text, { s with state })
  | (.error fault, state) => (.error ⟨s.formStart, .refused fault⟩, { s with state })

/-- A lowered expression as a statement; nothing is no statement. -/
def statement (text : String) : String := if text.isEmpty then "" else text ++ ";"

/-- Compiles what is left of a source, after the text `out`. -/
def compileFrom (reader : Reader) (state : Lowering.State) (formStart : Position) (out : String) :
    Except CompileError String × Session :=
  match _h : reader.read with
  | (.error error, after) =>
    (.error ⟨after.position, .unreadable error⟩, ⟨after, state, formStart⟩)
  | (.ok none, after) => (.ok (out ++ "\n"), ⟨after, state, formStart⟩)
  | (.ok (some e), after) =>
    match e.lowered state with
    | (.error fault, state) =>
      (.error ⟨after.tokenStart, .refused fault⟩, ⟨after, state, after.tokenStart⟩)
    | (.ok text, state) => compileFrom after state after.tokenStart (out ++ statement text)
termination_by reader.rest.length
decreasing_by exact Reader.read_length_lt _h

/-- Compiles everything left in the source: a statement for each expression, and a line feed. -/
def compile (s : Session) : Except CompileError String × Session :=
  compileFrom s.reader s.state s.formStart ""

end Session

end FormScript
