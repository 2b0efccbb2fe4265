import FormScript.Proofs.Compiling.Histories
import FormScript.Proofs.Lowering.Coupling
import FormScript.Proofs.Macro.Failures
import FormScript.Proofs.Macro.Vocabulary

/-!
# The macros of a session

A macro can be defined wherever an expression is lowered: as an operand, in the body of a function, by
the expansion of another macro, and before a later operand fails. An invariant of the macros that
lowering keeps is kept by every step of a session (`Session.perform_invariant`), and there are three of
them here: the registry is well formed, a name that is there stays, and without the keyword of macro
definitions nothing is defined.
-/

namespace FormScript

open Coupling

/-! ## Invariants of lowering -/

/-- Well-formed macros are all that is ever defined, and their expansions find a body. -/
theorem wellFormed_sound :
    (invariant (fun _ => True) Registry.WellFormed fun error => error ≠ .noBody).Sound := by
  apply invariant_sound
  · intro b items _ e _
    trivial
  · intro r m hr hm
    exact hr.define hm.wellFormed
  · intro r e m args hr _ hcall
    refine ⟨fun _ _ => trivial, ?_⟩
    rintro error hexpand rfl
    obtain ⟨name, _, hget⟩ := Registry.callOf?_eq_some_iff.mp hcall
    have hbody := (hr.each m (Registry.mem_of_get? hget)).body_ne_nil
    exact hbody (Macro.expand_eq_noBody_iff.mp hexpand).2

theorem contains_sound (name : String) :
    (invariant (fun _ => True) (fun r => r.contains name = true) fun _ => True).Sound := by
  apply invariant_sound
  · intro b items _ e _
    trivial
  · intro r m hr _
    exact Registry.contains_define hr m
  · intro r e m args _ _ _
    exact ⟨fun _ _ => trivial, fun _ _ => trivial⟩

/-- The name is not the keyword of macro definitions. -/
def NoDefinition (name : String) : Prop := name ≠ Builtin.macroDefinition.name

theorem noDefinition_vocabulary : Vocabulary NoDefinition where
  yes := show "true" ≠ "macro" by decide
  no := show "false" ≠ "macro" by decide
  null := show "null" ≠ "macro" by decide

/-- Where neither the expression nor the macros have the keyword, no expansion has it. -/
theorem unchanged_sound {r₀ : Registry}
    (h : ∀ m ∈ r₀.macros, ∀ b ∈ m.body, b.Within NoDefinition) :
    (invariant (Sexp.Within NoDefinition) (fun r => r = r₀) fun _ => True).Sound := by
  apply invariant_sound
  · intro b items hgroup
    exact Sexp.within_group.mp hgroup
  · intro r m _ hm
    exact absurd rfl (Sexp.within_symbol.mp hm.keyword)
  · rintro r e m args rfl he hcall
    refine ⟨?_, fun _ _ => trivial⟩
    intro expanded hexpand
    obtain ⟨name, rfl, hget⟩ := Registry.callOf?_eq_some_iff.mp hcall
    obtain ⟨_, hargs⟩ := List.forall_mem_cons.mp (Sexp.within_group.mp he)
    exact Macro.expand_within noDefinition_vocabulary (h m (Registry.mem_of_get? hget)) hargs hexpand

namespace Session

/-! ## Invariants of steps -/

/-- The step fails with the error. -/
def Fails (s : Session) : Step → CompileError → Prop
  | .setSource _, _ => False
  | .compile, error => s.compile.1 = .error error
  | .lower e, error => (s.lower e).1 = .error error

/-- The session comes about from a new one by some steps. -/
def Reachable (s : Session) : Prop := ∃ start history, (ofSource start).after history = s

section

variable {keeps : Registry → Prop} {tolerates : ExpandError → Prop}
  (hc : (invariant (fun _ => True) keeps tolerates).Sound)

include hc

/-- The induction is on the expressions that are read; each is lowered with the macros of those before. -/
theorem compileFrom_invariant (reader : Reader) (state : Lowering.State) (formStart : Position)
    (out : String) (h : keeps state.registry) :
    keeps (compileFrom reader state formStart out).2.registry
      ∧ ∀ position name error, (compileFrom reader state formStart out).1
          = .error ⟨position, .refused (.expansion name error)⟩ → tolerates error := by
  fun_induction compileFrom reader state formStart out with
  | case1 reader state formStart out error after hread =>
    refine ⟨h, ?_⟩
    intro position name error hfails
    cases hfails
  | case2 reader state formStart out after hread =>
    refine ⟨h, ?_⟩
    intro position name error hfails
    cases hfails
  | case3 reader state formStart out e after hread fault state' hlower =>
    obtain ⟨hkeeps, htolerates⟩ := hc.invariant (e := e) trivial h
    rw [hlower] at hkeeps htolerates
    refine ⟨hkeeps, ?_⟩
    intro position name error hfails
    cases hfails
    exact htolerates name error rfl
  | case4 reader state formStart out e after hread text state' hlower ih =>
    obtain ⟨hkeeps, _⟩ := hc.invariant (e := e) trivial h
    rw [hlower] at hkeeps
    exact ih hkeeps

/-- **What lowering keeps of the macros, every step keeps**, and expansions fail in a step only as they
    may fail in lowering. -/
theorem perform_invariant {s : Session} (h : keeps s.registry) (step : Step) :
    keeps (s.perform step).registry
      ∧ ∀ position name error, s.Fails step ⟨position, .refused (.expansion name error)⟩ →
        tolerates error := by
  cases step with
  | setSource source => exact ⟨h, fun _ _ _ hfails => hfails.elim⟩
  | compile => exact compileFrom_invariant hc s.reader s.state s.formStart "" h
  | lower e =>
    obtain ⟨hkeeps, htolerates⟩ := hc.invariant (e := e) trivial h
    refine ⟨?_, ?_⟩
    · show keeps (s.lower e).2.registry
      rw [lower_eq]
      exact hkeeps
    · intro position name error hfails
      have hfails : (s.lower e).1 = .error ⟨position, .refused (.expansion name error)⟩ := hfails
      rw [lower_eq] at hfails
      cases houtcome : (e.lowered s.state).1 with
      | ok text =>
        rw [houtcome] at hfails
        cases hfails
      | error fault =>
        rw [houtcome] at hfails
        cases hfails
        exact htolerates name error houtcome

theorem after_invariant {s : Session} (h : keeps s.registry) (history : List Step) :
    keeps (s.after history).registry := by
  induction history generalizing s with
  | nil => exact h
  | cons step history ih => exact ih (perform_invariant hc h step).1

end

theorem Reachable.wellFormed {s : Session} (h : s.Reachable) : s.registry.WellFormed := by
  obtain ⟨start, history, rfl⟩ := h
  have hempty : (ofSource start).registry.WellFormed := Registry.empty_wellFormed
  exact after_invariant wellFormed_sound hempty history

/-- Lowering without the keyword, in the expression and in the macros, defines nothing. -/
theorem lower_registry_eq {s : Session} {e : Sexp} (he : e.Within NoDefinition)
    (hmacros : ∀ m ∈ s.registry.macros, ∀ b ∈ m.body, b.Within NoDefinition) :
    (s.lower e).2.registry = s.registry := by
  rw [lower_eq]
  exact ((unchanged_sound hmacros).invariant he (s := s.state) rfl).1

end Session

/-- **The macros of a session stay in order.** After any history of a new session, of steps that succeed
    and of steps that fail, every macro is stored under its own name, has a body and has distinct
    parameters, so that no call of it and no step finds a macro without a body. A name that is there stays
    there in every step. Lowering an expression without the symbol `macro` leaves the registry as it is,
    whatever the outcome, if the bodies of the macros do not have the symbol either. -/
theorem macros_stay_in_order {s : Session} (h : s.Reachable) :
    (∀ name m, s.registry.get? name = some m ↔ m ∈ s.registry.macros ∧ m.name = name)
      ∧ (∀ m ∈ s.registry.macros, m.body ≠ [] ∧ m.params.Nodup
          ∧ ∀ args, m.expand args ≠ .error .noBody)
      ∧ (∀ step position name, ¬ s.Fails step ⟨position, .refused (.expansion name .noBody)⟩)
      ∧ (∀ step name, s.registry.contains name = true →
          (s.perform step).registry.contains name = true)
      ∧ ∀ e : Sexp, "macro" ∉ e.symbols →
          (∀ m ∈ s.registry.macros, ∀ b ∈ m.body, "macro" ∉ b.symbols) →
          (s.perform (.lower e)).registry = s.registry := by
  have hwell := h.wellFormed
  refine ⟨fun name m => hwell.get?_eq_some_iff, ?_, ?_, ?_, ?_⟩
  · intro m hm
    obtain ⟨hbody, hparams⟩ := hwell.each m hm
    refine ⟨hbody, hparams, ?_⟩
    intro args hexpand
    exact hbody (Macro.expand_eq_noBody_iff.mp hexpand).2
  · intro step position name hfails
    exact (Session.perform_invariant wellFormed_sound hwell step).2 position name .noBody hfails rfl
  · intro step name hname
    exact (Session.perform_invariant (contains_sound name) hname step).1
  · intro e he hmacros
    have habsent : ∀ b : Sexp, "macro" ∉ b.symbols → b.Within NoDefinition := by
      rintro b hb _ hname rfl
      exact hb hname
    apply Session.lower_registry_eq (habsent e he)
    intro m hm b hb
    exact habsent b (hmacros m hm b hb)

/-- The expression `(block (macro same (z) z) (if))`; its first operand is a definition, and its second one
    cannot be lowered. -/
def brokenBlock : Sexp :=
  .group .round [.symbol "block",
    .group .round [.symbol "macro", .symbol "same", .group .round [.symbol "z"], .symbol "z"],
    .group .round [.symbol "if"]]

/-- The macro of an expression that could not be lowered is there, and using it changes nothing. -/
theorem macros_stay_in_order_broken :
    let start := Session.ofText ""
    let s := start.after [.lower brokenBlock]
    let call : Sexp := .group .round [.symbol "same", .symbol "y"]
    (∃ error, start.Fails (.lower brokenBlock) error) ∧ s.Reachable
      ∧ s.registry.macros = [⟨"same", ["z"], [.symbol "z"]⟩]
      ∧ (s.perform (.lower call)).registry = s.registry
      ∧ (s.perform (.lower brokenBlock)).registry.contains "same" = true := by
  intro start s call
  have hreachable : s.Reachable := ⟨_, _, rfl⟩
  have hmacros : s.registry.macros = [⟨"same", ["z"], [.symbol "z"]⟩] := rfl
  obtain ⟨_, _, _, hnames, hframe⟩ := macros_stay_in_order hreachable
  refine ⟨⟨_, rfl⟩, hreachable, hmacros, ?_, hnames _ "same" rfl⟩
  apply hframe call (by decide)
  rw [hmacros]
  intro m hm b hb
  rw [List.mem_singleton.mp hm] at hb
  rw [List.mem_singleton.mp hb]
  decide

end FormScript
