import FormScript.Proofs.Lowering.Counters
import FormScript.Session

/-!
# What a session remembers

A session takes steps: it turns to another source, compiles what is left of its source, or lowers one
expression. Each step may fail, at any depth inside the expression that it lowers. A session is `Idle`
when nothing is under way in it. Every step leaves an idle session idle (`perform_idle`), so after any
history an idle session differs from a new one in its macros and in its source alone, and once it has
turned to another source, in its macros alone.
-/

namespace FormScript

namespace Session

/-- A step of a session. -/
inductive Step where
  | setSource (source : Source)
  | compile
  | lower (e : Sexp)

/-- The session after a step; what the step gives or why it fails is left out. -/
def perform (s : Session) : Step → Session
  | .setSource source => s.setSource source
  | .compile => s.compile.2
  | .lower e => (s.lower e).2

/-- The session after some steps. -/
def after (s : Session) (history : List Step) : Session := history.foldl perform s

/-- A new session that knows the macros of `registry`. -/
def ofRegistry (registry : Registry) (source : Source) : Session :=
  { ofSource source with state := { Lowering.State.initial with registry := registry } }

/-- Nothing is under way. -/
def Idle (s : Session) : Prop := s.state.depth = 0 ∧ s.state.expansions = 0

theorem ofSource_idle (source : Source) : (ofSource source).Idle := ⟨rfl, rfl⟩

/-- What a session makes of the outcome of lowering. -/
def report (s : Session) (outcome : Except Fault String) : Except CompileError String :=
  outcome.mapError fun fault => ⟨s.formStart, .refused fault⟩

theorem lower_eq (s : Session) (e : Sexp) :
    s.lower e = (s.report (e.lowered s.state).1, { s with state := (e.lowered s.state).2 }) := by
  unfold lower report
  cases e.lowered s.state with
  | mk outcome state =>
    cases outcome with
    | ok text => rfl
    | error fault => rfl

/-- Lowering an expression leaves nothing under way, whatever the outcome. -/
theorem lower_idle {s : Session} (h : s.Idle) (e : Sexp) : (s.lower e).2.Idle := by
  obtain ⟨hdepth, hexpansions⟩ := e.lowered_steady s.state
  rw [lower_eq]
  exact ⟨hdepth.trans h.1, hexpansions.trans h.2⟩

/-- Compiling leaves the counts as they were, wherever it stops. -/
theorem compileFrom_counts (reader : Reader) (state : Lowering.State) (formStart : Position)
    (out : String) :
    (compileFrom reader state formStart out).2.state.depth = state.depth
      ∧ (compileFrom reader state formStart out).2.state.expansions = state.expansions := by
  fun_induction compileFrom reader state formStart out with
  | case1 reader state formStart out error after hread => exact ⟨rfl, rfl⟩
  | case2 reader state formStart out after hread => exact ⟨rfl, rfl⟩
  | case3 reader state formStart out e after hread fault state' hlower =>
    have hsteady := e.lowered_steady state
    rw [hlower] at hsteady
    exact hsteady
  | case4 reader state formStart out e after hread text state' hlower ih =>
    have hsteady := e.lowered_steady state
    rw [hlower] at hsteady
    exact ⟨ih.1.trans hsteady.1, ih.2.trans hsteady.2⟩

/-- **Every step leaves an idle session idle**, whether it succeeds or fails. -/
theorem perform_idle {s : Session} (h : s.Idle) (step : Step) : (s.perform step).Idle := by
  cases step with
  | setSource source => exact h
  | compile =>
    obtain ⟨hdepth, hexpansions⟩ := compileFrom_counts s.reader s.state s.formStart ""
    exact ⟨hdepth.trans h.1, hexpansions.trans h.2⟩
  | lower e => exact lower_idle h e

theorem after_idle {s : Session} (h : s.Idle) (history : List Step) : (s.after history).Idle := by
  induction history generalizing s with
  | nil => exact h
  | cons step history ih => exact ih (perform_idle h step)

/-- An idle session that turns to a source is a new session with its macros. -/
theorem setSource_of_idle {s : Session} (h : s.Idle) (source other : Source) :
    s.setSource source = (ofRegistry s.registry other).setSource source := by
  obtain ⟨reader, ⟨registry, depth, expansions⟩, formStart⟩ := s
  obtain ⟨rfl, rfl⟩ := h
  rfl

end Session

/-- **Of a session's history only the macros survive a change of source.** After any history of a new
    session nothing is under way. Turning to a source and compiling it then gives what it gives in a new
    session with the same macros: the same text or the same failure at the same place, and the same
    session afterwards. -/
theorem macros_alone_survive (start : Source) (history : List Session.Step) (source other : Source) :
    ((Session.ofSource start).after history).Idle
      ∧ (((Session.ofSource start).after history).setSource source).compile
        = ((Session.ofRegistry ((Session.ofSource start).after history).registry other).setSource
            source).compile := by
  have hidle := Session.after_idle (Session.ofSource_idle start) history
  refine ⟨hidle, ?_⟩
  rw [Session.setSource_of_idle hidle source other]

end FormScript
