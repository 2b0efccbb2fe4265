import FormScript.Proofs.Reading.Streams
import FormScript.Session

/-!
# Compiling streams

Reading gives the same over a text held whole and over a stream, so compiling does too: the same lowered
text and the same macros, or the same failure at the same place.
-/

namespace FormScript

/-- The same failure at the same place; what cannot be read is reported in two contexts. -/
def CompileError.SameIn (context context' : String) (e e' : CompileError) : Prop :=
  e.position = e'.position ∧
    match e.cause, e'.cause with
    | .refused fault, .refused fault' => fault = fault'
    | .unreadable error, .unreadable error' => error.SameIn context context' error'
    | _, _ => False

namespace Session

/-- Two compilations gave the same text, or failed in the same way but for the names of their sources.
    They have left the same macros, and their readers at the same place. -/
structure SameCompilation (a b : Except CompileError String × Session) : Prop where
  outcome : match a.1, b.1 with
    | .ok text, .ok text' => text = text'
    | .error e, .error e' =>
      e.SameIn a.2.reader.source.describe b.2.reader.source.describe e'
    | _, _ => False
  state : a.2.state = b.2.state
  source : a.2.reader.source.Agrees b.2.reader.source
  formStart : a.2.formStart = b.2.formStart

theorem compileFrom_of_error {reader after : Reader} {error : ReadError}
    (h : reader.read = (.error error, after)) (state : Lowering.State) (formStart : Position)
    (out : String) :
    compileFrom reader state formStart out
      = (.error ⟨after.position, .unreadable error⟩, ⟨after, state, formStart⟩) := by
  rw [compileFrom]
  split <;> simp_all

theorem compileFrom_of_none {reader after : Reader} (h : reader.read = (.ok none, after))
    (state : Lowering.State) (formStart : Position) (out : String) :
    compileFrom reader state formStart out = (.ok (out ++ "\n"), ⟨after, state, formStart⟩) := by
  rw [compileFrom]
  split <;> simp_all

theorem compileFrom_of_refused {reader after : Reader} {e : Sexp} {state state' : Lowering.State}
    {fault : Fault} (h : reader.read = (.ok (some e), after))
    (hlower : e.lowered state = (.error fault, state')) (formStart : Position) (out : String) :
    compileFrom reader state formStart out
      = (.error ⟨after.tokenStart, .refused fault⟩, ⟨after, state', after.tokenStart⟩) := by
  rw [compileFrom]
  split <;> simp_all

theorem compileFrom_of_lowered {reader after : Reader} {e : Sexp} {state state' : Lowering.State}
    {text : String} (h : reader.read = (.ok (some e), after))
    (hlower : e.lowered state = (.ok text, state')) (formStart : Position) (out : String) :
    compileFrom reader state formStart out
      = compileFrom after state' after.tokenStart (out ++ statement text) := by
  rw [compileFrom]
  split <;> simp_all

/-- **Sources that agree compile alike**, whatever has been compiled before them. -/
theorem compileFrom_agrees {reader reader' : Reader} (h : reader.source.Agrees reader'.source)
    (state : Lowering.State) (formStart : Position) (out : String) :
    SameCompilation (compileFrom reader state formStart out)
      (compileFrom reader' state formStart out) := by
  fun_induction compileFrom reader state formStart out generalizing reader' with
  | case1 reader state formStart out error after hread =>
    obtain ⟨error', after', hread', hsame, hsource⟩ := Reader.read_agrees_of_error h hread
    rw [compileFrom_of_error hread']
    exact ⟨⟨hsource.position, hsame⟩, rfl, hsource, rfl⟩
  | case2 reader state formStart out after hread =>
    obtain ⟨after', hread', hsource, _⟩ := Reader.read_agrees_of_ok h hread
    rw [compileFrom_of_none hread']
    exact ⟨rfl, rfl, hsource, rfl⟩
  | case3 reader state formStart out e after hread fault state' hlower =>
    obtain ⟨after', hread', hsource, hstart⟩ := Reader.read_agrees_of_ok h hread
    rw [compileFrom_of_refused hread' hlower]
    exact ⟨⟨hstart, rfl⟩, rfl, hsource, hstart⟩
  | case4 reader state formStart out e after hread text state' hlower ih =>
    obtain ⟨after', hread', hsource, hstart⟩ := Reader.read_agrees_of_ok h hread
    rw [compileFrom_of_lowered hread' hlower, ← hstart]
    exact ih hsource

end Session

/-- **It does not matter where the characters come from.** Over a text that is held whole and over a
    stream of the same characters, any steps of a reader give the same expressions, the same ends of the
    source and the same failures, which name their sources in front, and leave the readers at the same place
    with the same start of the last expression. The stream has always pulled one character more than the
    furthest place it has come to, or all of them; reading moves forward only, so the furthest place is the
    greatest that it had after a step. Compiling either in any session gives the same text and the same
    macros, or the same failure at the same place. -/
theorem source_kind_immaterial (text : String) (steps : List Reader.Step) (s : Session) :
    List.Forall₂ Reader.Event.Agrees ((Reader.ofText text).trace steps)
        ((Reader.ofStream text).trace steps)
      ∧ (Reader.ofStream text).source.pulled = min text.length 1
      ∧ Reader.DrawsAlong text.length 0 ((Reader.ofStream text).trace steps)
      ∧ Session.SameCompilation (s.setSource (.ofText text.toList)).compile
        (s.setSource (.ofStream text.toList)).compile := by
  have hagrees := Source.ofStream_agrees text.toList
  have hdrawn := Source.Drawn.ofStream text.toList
  rw [String.length_toList] at hdrawn
  refine ⟨?_, ?_, ?_, ?_⟩
  · exact Reader.trace_agrees hagrees steps
  · exact hdrawn.pulled
  · exact Reader.trace_draws hdrawn steps
  · exact Session.compileFrom_agrees hagrees s.state .start ""

/-- A failure near the end of the text, going back and reading on: the two names of the source differ. -/
example :
    ((Reader.ofText "(a) ]b").trace [.read, .read, .reset, .read]).map (·.reader.source.describe)
        = ["<text 6 chars>", "<text 6 chars>", "<text 6 chars>", "<text 6 chars>"]
      ∧ ((Reader.ofStream "(a) ]b").trace [.read, .read, .reset, .read]).map (·.reader.source.describe)
        = ["<stream, 4 chars read>", "<stream, 5 chars read>", "<stream, 5 chars read>",
          "<stream, 5 chars read>"] := by
  decide +kernel

end FormScript
