import FormScript.Proofs.Compiling.Histories
import FormScript.Proofs.Lowering.Coupling
import FormScript.Proofs.Lowering.Promises

/-!
# Counts decide about limits alone

How much is under way when an expression is lowered has no influence on what it is lowered to. With fewer
expressions and expansions under way the outcome is the same, a text or a fault, and so are the macros
afterwards, unless lowering had stopped at one of the two limits. So a macro call stands for its
expansion: the call counts as one expression and one expansion more, and nothing else tells the two apart.
-/

namespace FormScript

/-- The second run knows the same macros, and no more is under way in it. -/
def lighter : Coupling where
  admits _ := True
  alike r r' := r = r'
  excuses fault := fault.isLimit = true
  tolerates _ := True

theorem lighter_sound : lighter.Sound where
  hereditary := fun _ _ _ _ _ => trivial
  define := by
    rintro r _ m rfl _
    rfl
  call := by
    rintro r _ e rfl _
    rfl
  expansion := fun _ _ _ => ⟨fun _ _ => trivial, fun _ _ => trivial⟩

namespace Sexp

open Lowering

/-- **With less under way an expression is lowered to the same**, unless a limit was met before. -/
theorem lowered_of_lighter (e : Sexp) {s t : State} (hregistry : s.registry = t.registry)
    (hdepth : t.depth ≤ s.depth) (hexpansions : t.expansions ≤ s.expansions)
    (hlimit : ∀ fault, (e.lowered s).1 = .error fault → fault.isLimit = false) :
    (e.lowered t).1 = (e.lowered s).1 ∧ (e.lowered t).2.registry = (e.lowered s).2.registry := by
  have hexcuses : ∀ fault, fault.isLimit = true → lighter.excuses fault := fun _ h => h
  have hmeets := lighter_sound.lowered (e := e) trivial ⟨hregistry, .inr ⟨hexpansions, hexcuses⟩⟩
    (.inr ⟨hdepth, hexcuses⟩)
  rcases hmeets with ⟨fault, hfault, hexcused⟩ | ⟨hsame, _, halike, _⟩
  · have hmet : fault.isLimit = true := hexcused
    rw [hlimit fault hfault] at hmet
    cases hmet
  · exact ⟨hsame.symm, halike.symm⟩

/-- A macro call is lowered as its expansion is, with one expression and one expansion more under way. -/
theorem lowered_call {s : State} (hdepth : s.depth < maxLowering) {e expanded : Sexp} {m : Macro}
    {args : List Sexp} (hcall : s.registry.callOf? e = some (m, args))
    (hexpand : m.expand args = .ok expanded) :
    e.lowered s = nested (expanding m.name expanded.lowered) s := by
  rw [lowered_eq, if_pos hdepth]
  apply nested_congr
  have hrun : registry { s with depth := s.depth + 1 }
      = (.ok s.registry, { s with depth := s.depth + 1 }) := rfl
  rw [bind_of_ok hrun, hcall]
  simp only [hexpand]

/-- **A macro call is lowered to what its expansion is lowered to**, with as much under way, unless a
    limit is met. -/
theorem lowered_expansion {s : State} {e expanded : Sexp} {m : Macro} {args : List Sexp}
    (hcall : s.registry.callOf? e = some (m, args)) (hexpand : m.expand args = .ok expanded)
    (hlimit : ∀ fault, (e.lowered s).1 = .error fault → fault.isLimit = false) :
    expanded.lowered s = e.lowered s := by
  by_cases hdepth : s.depth < maxLowering
  · have hrun := lowered_call hdepth hcall hexpand
    by_cases hexpansions : s.expansions < maxExpansion
    · -- the call lowers the expansion with one more of both under way
      have hinner : (e.lowered s).1
            = (expanded.lowered ⟨s.registry, s.depth + 1, s.expansions + 1⟩).1
          ∧ (e.lowered s).2.registry
            = (expanded.lowered ⟨s.registry, s.depth + 1, s.expansions + 1⟩).2.registry := by
        rw [hrun]
        simp only [nested, expanding, if_pos hexpansions, and_self]
      obtain ⟨houtcome, hregistry⟩ := hinner
      rw [houtcome] at hlimit
      obtain ⟨hsame, hmacros⟩ := lowered_of_lighter expanded
        (s := ⟨s.registry, s.depth + 1, s.expansions + 1⟩) (t := s) rfl (Nat.le_succ s.depth)
        (Nat.le_succ s.expansions) hlimit
      refine Prod.ext (hsame.trans houtcome.symm) ?_
      rw [expanded.lowered_steady.state_eq s, e.lowered_steady.state_eq s, hmacros, hregistry]
    · have hstops : (e.lowered s).1 = .error (.expandedTooDeeply m.name) := by
        rw [hrun]
        simp only [nested, expanding, if_neg hexpansions]
      cases hlimit _ hstops
  · have hstops : (e.lowered s).1 = .error (.shape (.nestedTooDeeply e.kind)) := by
      rw [lowered_eq, if_neg hdepth]
    cases hlimit _ hstops

end Sexp

namespace Session

/-- The session with other counts of what is under way. -/
def underWay (s : Session) (depth expansions : Nat) : Session :=
  { s with state := ⟨s.registry, depth, expansions⟩ }

/-- Lowering stopped because too much was under way. -/
def StopsAtLimit (outcome : Except CompileError String) : Prop :=
  ∃ position fault, outcome = .error ⟨position, .refused fault⟩ ∧ fault.isLimit = true

theorem not_isLimit_of_lower {s : Session} {e : Sexp} (h : ¬ StopsAtLimit (s.lower e).1) :
    ∀ fault, (e.lowered s.state).1 = .error fault → fault.isLimit = false := by
  intro fault hfault
  cases hlimit : fault.isLimit with
  | false => rfl
  | true =>
    refine absurd ⟨s.formStart, fault, ?_, hlimit⟩ h
    rw [lower_eq, hfault]
    rfl

end Session

/-- **What is under way decides about limits alone.** With no more expressions and expansions under way
    an expression is lowered with the same outcome, a text or a fault, and with the same macros
    afterwards, unless a limit was met. Hence a call of a macro is lowered as its expansion is, to the same
    outcome and the same session, unless the call meets a limit. -/
theorem counts_gate_failure_alone (s : Session) (e : Sexp)
    (hlimit : ¬ Session.StopsAtLimit (s.lower e).1) :
    (∀ depth expansions, depth ≤ s.state.depth → expansions ≤ s.state.expansions →
      ((s.underWay depth expansions).lower e).1 = (s.lower e).1
        ∧ ((s.underWay depth expansions).lower e).2.registry = (s.lower e).2.registry)
      ∧ ∀ name m args expanded, e = .group .round (.symbol name :: args) →
        s.registry.get? name = some m → m.expand args = .ok expanded →
          s.lower expanded = s.lower e := by
  have hfaults := Session.not_isLimit_of_lower hlimit
  constructor
  · intro depth expansions hdepth hexpansions
    obtain ⟨hsame, hregistry⟩ := e.lowered_of_lighter (s := s.state)
      (t := (s.underWay depth expansions).state) rfl hdepth hexpansions hfaults
    rw [Session.lower_eq, Session.lower_eq, hsame]
    exact ⟨rfl, hregistry⟩
  · rintro name m args expanded rfl hget hexpand
    have hcall : s.registry.callOf? (.group .round (.symbol name :: args)) = some (m, args) :=
      Registry.callOf?_eq_some_iff.mpr ⟨name, rfl, hget⟩
    rw [Session.lower_eq, Session.lower_eq, Sexp.lowered_expansion hcall hexpand hfaults]

/-- A macro that calls its second argument with its first: the call `(on y g)` and its expansion `(g y)`,
    inside three expressions and two expansions and on their own. -/
theorem counts_gate_failure_alone_call :
    let m : Macro := ⟨"on", ["x", "f"], [.group .round [.symbol "f", .symbol "x"]]⟩
    let s := (Session.ofRegistry ⟨[m]⟩ (.ofText [])).underWay 3 2
    let call : Sexp := .group .round [.symbol "on", .symbol "y", .symbol "g"]
    (s.lower call).1 = .ok "(g(y))"
      ∧ ((s.underWay 0 0).lower call).1 = .ok "(g(y))"
      ∧ s.lower (.group .round [.symbol "g", .symbol "y"]) = s.lower call := by
  intro m s call
  have hok : (s.lower call).1 = .ok "(g(y))" := ok_of_toOption (by decide +kernel)
  have hlimit : ¬ Session.StopsAtLimit (s.lower call).1 := by
    rintro ⟨position, fault, hfault, _⟩
    rw [hok] at hfault
    cases hfault
  obtain ⟨hlighter, hexpansion⟩ := counts_gate_failure_alone s call hlimit
  have hexpand : m.expand [.symbol "y", .symbol "g"]
      = .ok (.group .round [.symbol "g", .symbol "y"]) := rfl
  refine ⟨hok, ?_, hexpansion "on" m _ _ rfl rfl hexpand⟩
  rw [(hlighter 0 0 (Nat.zero_le _) (Nat.zero_le _)).1]
  exact hok

end FormScript
