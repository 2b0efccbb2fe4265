import FormScript.Proofs.Lowering.Counters
import FormScript.Proofs.Lowering.Makeup

/-!
# Two runs side by side

A `Coupling` relates two runs of lowering on the same expression. It says which expressions it is about,
how the macros that the two runs know are related, and which faults of the first run are excused. Two
computations are `Coupled` when from related states they have the same outcome, a result or a fault, and
end in related states, unless the first one ends with an excused fault. A smaller count of what is under
way is allowed in the second run if the faults at the limits are excused.

A coupling that is `Sound` couples lowering with itself (`Sound.lowered`). What has to be shown for it is
about macros alone: what a definition does to the relation, and what a macro call expands to.

With one run in both places a coupling is an invariant of the macros (`Sound.invariant`).
-/

namespace FormScript

/-- The fault is that too much is under way. -/
def Fault.isLimit : Fault → Bool
  | .shape (.nestedTooDeeply _) => true
  | .expandedTooDeeply _ => true
  | _ => false

/-- What two runs have to do with each other. -/
structure Coupling where
  /-- The expressions that are lowered. -/
  admits : Sexp → Prop
  /-- How the macros of the two runs are related. -/
  alike : Registry → Registry → Prop
  /-- The faults of the first run after which nothing is said of the second. -/
  excuses : Fault → Prop
  /-- Why expansions may fail in either run. -/
  tolerates : ExpandError → Prop

namespace Coupling

open Lowering

variable {α β : Type} (c : Coupling)

/-- The second count is the first one, or smaller where the limits are excused. -/
def Counts (n k : Nat) : Prop := k = n ∨ k ≤ n ∧ ∀ fault, fault.isLimit = true → c.excuses fault

/-- The macros are related, and so are the counts of expansions. -/
def Related (s t : State) : Prop :=
  c.alike s.registry t.registry ∧ c.Counts s.expansions t.expansions

/-- The first run ended with an excused fault, or both ended alike and in related states. -/
def Meets (x y : Except Fault α × State) : Prop :=
  (∃ fault, x.1 = .error fault ∧ c.excuses fault)
    ∨ x.1 = y.1 ∧ (∀ name error, x.1 = .error (.expansion name error) → c.tolerates error)
      ∧ c.Related x.2 y.2

/-- From related states the computations end alike. -/
def Coupled (x y : Lowering α) : Prop := ∀ s t, c.Related s t → c.Meets (x s) (y t)

variable {c}

theorem Counts.succ {n k : Nat} (h : c.Counts n k) : c.Counts (n + 1) (k + 1) := by
  rcases h with rfl | ⟨hle, hlimits⟩
  · exact .inl rfl
  · exact .inr ⟨Nat.succ_le_succ hle, hlimits⟩

theorem Counts.pred {n k : Nat} (h : c.Counts n k) : c.Counts (n - 1) (k - 1) := by
  rcases h with rfl | ⟨hle, hlimits⟩
  · exact .inl rfl
  · exact .inr ⟨Nat.sub_le_sub_right hle 1, hlimits⟩

/-- Where less is under way there is more room. -/
theorem Counts.room {n k : Nat} (h : c.Counts n k) (max : Nat) : c.Counts (max - k) (max - n) := by
  rcases h with rfl | ⟨hle, hlimits⟩
  · exact .inl rfl
  · exact .inr ⟨Nat.sub_le_sub_left hle max, hlimits⟩

/-! ## Computations -/

theorem coupled_pure (a : α) : c.Coupled (pure a) (pure a) :=
  fun _ _ h => .inr ⟨rfl, nofun, h⟩

theorem coupled_fail {fault : Fault}
    (h : ∀ name error, fault = .expansion name error → c.tolerates error) :
    c.Coupled (fail fault : Lowering α) (fail fault) := by
  intro s t hrelated
  refine .inr ⟨rfl, ?_, hrelated⟩
  intro name error hfault
  exact h name error (Except.error.inj hfault)

/-- An excused failure is coupled with anything. -/
theorem coupled_of_excused {fault : Fault} (h : c.excuses fault) (y : Lowering α) :
    c.Coupled (fail fault) y := fun _ _ _ => .inl ⟨fault, rfl, h⟩

theorem Coupled.bind {x y : Lowering α} {f g : α → Lowering β} (hxy : c.Coupled x y)
    (hfg : ∀ a, c.Coupled (f a) (g a)) : c.Coupled (x >>= f) (y >>= g) := by
  intro s t hrelated
  have hmeets := hxy s t hrelated
  cases hx : x s with
  | mk outcome after =>
    cases hy : y t with
    | mk outcome' after' =>
      rw [hx, hy] at hmeets
      rcases hmeets with ⟨fault, rfl, hexcused⟩ | ⟨hsame, htolerated, hafter⟩
      · rw [bind_of_error hx]
        exact .inl ⟨fault, rfl, hexcused⟩
      · have hsame : outcome = outcome' := hsame
        subst hsame
        cases outcome with
        | error fault =>
          rw [bind_of_error hx, bind_of_error hy]
          refine .inr ⟨rfl, ?_, hafter⟩
          intro name error hfault
          cases hfault
          exact htolerated name error rfl
        | ok a =>
          rw [bind_of_ok hx, bind_of_ok hy]
          exact hfg a after after' hafter

/-- The count of expressions has no part in the relation. -/
theorem Coupled.nested {x y : Lowering α} (h : c.Coupled x y) : c.Coupled (nested x) (nested y) := by
  intro s t hrelated
  exact h { s with depth := s.depth + 1 } { t with depth := t.depth + 1 } hrelated

theorem Coupled.expanding {x y : Lowering α} (h : c.Coupled x y) (name : String) :
    c.Coupled (expanding name x) (expanding name y) := by
  intro s t hrelated
  obtain ⟨halike, hcounts⟩ := hrelated
  unfold Lowering.expanding
  by_cases hroom : s.expansions < maxExpansion
  · have hroom' : t.expansions < maxExpansion := by
      rcases hcounts with hsame | ⟨hle, _⟩ <;> omega
    rw [if_pos hroom, if_pos hroom']
    rcases h { s with expansions := s.expansions + 1 } { t with expansions := t.expansions + 1 }
      ⟨halike, hcounts.succ⟩ with hexcused | ⟨hsame, htolerated, hafter⟩
    · exact .inl hexcused
    · exact .inr ⟨hsame, htolerated, hafter.1, hafter.2.pred⟩
  · rw [if_neg hroom]
    rcases hcounts with hsame | ⟨hle, hlimits⟩
    · rw [hsame, if_neg hroom]
      exact .inr ⟨rfl, nofun, halike, .inl hsame⟩
    · exact .inl ⟨.expandedTooDeeply name, rfl, hlimits _ rfl⟩

/-! ## Lowering -/

/-- Definitions keep the macros related, and related macros expand the same calls to expressions that
    are again admitted. -/
structure Sound (c : Coupling) : Prop where
  hereditary : Sexp.Hereditary c.admits
  define : ∀ {r r' : Registry} {m : Macro}, c.alike r r' → m.DefinedFrom c.admits →
    c.alike (r.define m) (r'.define m)
  call : ∀ {r r' : Registry} {e : Sexp}, c.alike r r' → c.admits e → r.callOf? e = r'.callOf? e
  expansion : ∀ {r r' : Registry} {e : Sexp} {m : Macro} {args : List Sexp}, c.alike r r' →
    c.admits e → r.callOf? e = some (m, args) →
      (∀ expanded, m.expand args = .ok expanded → c.admits expanded)
        ∧ ∀ error, m.expand args = .error error → c.tolerates error

namespace Sound

variable (hc : c.Sound)

include hc

/-- Rendering couples if lowering the operands does. -/
theorem render {lower lower' : Sexp → Lowering String}
    (hlower : ∀ e, c.admits e → c.Coupled (lower e) (lower' e)) {L : Layout}
    (hL : L.Consists c.admits) : c.Coupled (L.render lower) (L.render lower') := by
  induction L with
  | text s => exact coupled_pure s
  | operand e => exact hlower e hL
  | wrap how part ih => exact (ih hL).bind fun s => coupled_pure _
  | join how first second ihfirst ihsecond =>
    exact (ihfirst hL.1).bind fun s => (ihsecond hL.2).bind fun t => coupled_pure _
  | reject fault =>
    apply coupled_fail
    rintro name error rfl
    cases hL
  | define m =>
    intro s t hrelated
    exact .inr ⟨rfl, nofun, hc.define hrelated.1 hL, hrelated.2⟩

/-- The induction is on the room of the first run; the second has as much, or more where it may. -/
theorem lower {room room' : Nat} (hroom : c.Counts room' room) {e : Sexp} (he : c.admits e) :
    c.Coupled (e.lower room) (e.lower room') := by
  induction room generalizing room' e with
  | zero =>
    rcases hroom with hsame | ⟨_, hlimits⟩
    · subst hsame
      exact coupled_fail nofun
    · exact coupled_of_excused (hlimits _ rfl) _
  | succ room ih =>
    obtain ⟨room', rfl⟩ : ∃ k, room' = k + 1 := by
      rcases hroom with hsame | ⟨hle, _⟩
      · exact ⟨room, hsame.symm⟩
      · exact ⟨room' - 1, by omega⟩
    have hroom' : c.Counts room' room := hroom.pred
    apply Coupled.nested
    intro s t hrelated
    have hcall := hc.call hrelated.1 he
    have hs : registry s = (.ok s.registry, s) := rfl
    have ht : registry t = (.ok t.registry, t) := rfl
    rw [bind_of_ok hs, bind_of_ok ht, ← hcall]
    cases hmacro : s.registry.callOf? e with
    | none =>
      have hlayout := Sexp.consists_layout hc.hereditary he
      exact hc.render (fun _ he' => ih hroom' he') hlayout s t hrelated
    | some call =>
      obtain ⟨m, args⟩ := call
      obtain ⟨hadmits, htolerates⟩ := hc.expansion hrelated.1 he hmacro
      dsimp only
      cases hexpand : m.expand args with
      | error error =>
        refine coupled_fail ?_ s t hrelated
        rintro name other hfault
        cases hfault
        exact htolerates error hexpand
      | ok expanded => exact (ih hroom' (hadmits expanded hexpand)).expanding m.name s t hrelated

/-- **A sound coupling couples lowering with itself.** -/
theorem lowered {e : Sexp} (he : c.admits e) {s t : State} (h : c.Related s t)
    (hdepth : c.Counts s.depth t.depth) : c.Meets (e.lowered s) (e.lowered t) :=
  hc.lower (hdepth.room maxLowering) he s t h

end Sound

/-- The coupling of a run with itself that keeps a property of the macros. -/
def invariant (admits : Sexp → Prop) (keeps : Registry → Prop) (tolerates : ExpandError → Prop) :
    Coupling where
  admits := admits
  alike r r' := r = r' ∧ keeps r
  excuses _ := False
  tolerates := tolerates

/-- What is to be shown of an invariant: definitions keep it, and calls expand as they may. -/
theorem invariant_sound {admits : Sexp → Prop} {keeps : Registry → Prop}
    {tolerates : ExpandError → Prop} (hereditary : Sexp.Hereditary admits)
    (hdefine : ∀ r m, keeps r → m.DefinedFrom admits → keeps (r.define m))
    (hexpansion : ∀ r e m args, keeps r → admits e → r.callOf? e = some (m, args) →
      (∀ expanded, m.expand args = .ok expanded → admits expanded)
        ∧ ∀ error, m.expand args = .error error → tolerates error) :
    (invariant admits keeps tolerates).Sound where
  hereditary := hereditary
  define := by
    rintro r _ m ⟨rfl, hr⟩ hm
    exact ⟨rfl, hdefine r m hr hm⟩
  call := by
    rintro r _ e ⟨rfl, _⟩ _
    rfl
  expansion := by
    rintro r _ e m args ⟨rfl, hr⟩ he hcall
    exact hexpansion r e m args hr he hcall

/-- **A property of the macros that definitions keep is kept by lowering**, whatever the outcome. -/
theorem Sound.invariant {admits : Sexp → Prop} {keeps : Registry → Prop}
    {tolerates : ExpandError → Prop} (hc : (Coupling.invariant admits keeps tolerates).Sound) {e : Sexp}
    (he : admits e) {s : State} (hs : keeps s.registry) :
    keeps (e.lowered s).2.registry
      ∧ ∀ name error, (e.lowered s).1 = .error (.expansion name error) → tolerates error := by
  rcases hc.lowered he (s := s) (t := s) ⟨⟨rfl, hs⟩, .inl rfl⟩ (.inl rfl) with
    ⟨_, _, hexcused⟩ | ⟨_, htolerates, halike, _⟩
  · exact hexcused.elim
  · exact ⟨halike.2, htolerates⟩

end Coupling

end FormScript
