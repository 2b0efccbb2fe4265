import FormScript.Proofs.Lowering.Counters
import FormScript.Proofs.Macro.Registry

/-!
# What lowering promises

A `Promise` says of which expressions it speaks, which macros may be known, and what the lowered text
of such an expression is like. It is kept by lowering as a whole (`Promise.Kept.lowered`) if it is kept
by each layout, given that it is kept for the operands, and if it passes through macro calls.

What it means for a layout is said by `Layout.Ensures`: run backwards from what is wanted of the text,
it leaves a condition on the operands and on the macros that are defined. Nothing is promised of a
layout that is rejected.
-/

namespace FormScript

/-- A property that lowered texts are to have. -/
structure Promise where
  /-- The expressions it speaks of. -/
  admits : Sexp → Prop
  /-- The macros that may be known. -/
  keeps : Macro → Prop
  /-- What the text of an expression is to be like. -/
  gives : Sexp → String → Prop

/-! ## Layouts -/

namespace Layout

/-- If the promise is kept for the operands, the text of the layout is as wanted. -/
def Ensures (c : Promise) : Layout → (String → Prop) → Prop
  | .text s, wanted => wanted s
  | .operand e, wanted => c.admits e ∧ ∀ s, c.gives e s → wanted s
  | .wrap how part, wanted => part.Ensures c fun s => wanted (how.apply s)
  | .join how first second, wanted =>
    first.Ensures c fun s => second.Ensures c fun t => wanted (how.apply s t)
  | .reject _, _ => True
  | .define m, wanted => c.keeps m ∧ wanted ""

variable {c : Promise}

/-- What is wanted may be weakened. -/
theorem Ensures.mono {L : Layout} {wanted wanted' : String → Prop} (h : L.Ensures c wanted)
    (himp : ∀ s, wanted s → wanted' s) : L.Ensures c wanted' := by
  induction L generalizing wanted wanted' with
  | text s => exact himp s h
  | operand e => exact ⟨h.1, fun s hs => himp s (h.2 s hs)⟩
  | wrap how part ih => exact ih h fun s hs => himp _ hs
  | join how first second ihfirst ihsecond =>
    exact ihfirst h fun s hs => ihsecond hs fun t ht => himp _ ht
  | reject fault => exact trivial
  | define m => exact ⟨h.1, himp "" h.2⟩

end Layout

namespace Promise

/-- All macros of a registry may be known. -/
def Knows (c : Promise) (r : Registry) : Prop := ∀ m ∈ r.macros, c.keeps m

theorem knows_empty (c : Promise) : c.Knows .empty := fun _ hm => absurd hm List.not_mem_nil

variable {c : Promise}

theorem Knows.define {r : Registry} (h : c.Knows r) {m : Macro} (hm : c.keeps m) :
    c.Knows (r.define m) := by
  intro n hn
  rcases Registry.mem_define hn with rfl | hold
  · exact hm
  · exact h n hold

/-- A computation that keeps the promise for an expression: if it gives a text, the text is as promised
    and the macros known afterwards are allowed. -/
def KeptBy (c : Promise) (x : Lowering String) (wanted : String → Prop) : Prop :=
  ∀ s text after, c.Knows s.registry → x s = (.ok text, after) →
    wanted text ∧ c.Knows after.registry

/-- The promise is kept by every layout and passes through every macro call. -/
structure Kept (c : Promise) : Prop where
  layout : ∀ e, c.admits e → e.layout.Ensures c (c.gives e)
  expansion : ∀ name m args expanded, c.keeps m → c.admits (.group .round (.symbol name :: args)) →
    m.expand args = .ok expanded → c.admits expanded
      ∧ ∀ text, c.gives expanded text → c.gives (.group .round (.symbol name :: args)) text

end Promise

/-! ## Rendering and lowering -/

/-- Results can be compared where faults cannot. -/
theorem ok_of_toOption {ε α : Type} {x : Except ε α} {a : α} (h : x.toOption = some a) :
    x = .ok a := by
  cases x with
  | error error => cases h
  | ok b =>
    cases h
    rfl

theorem error_of_toOption {ε α : Type} {x : Except ε α} (h : x.toOption = none) :
    ∃ error, x = .error error := by
  cases x with
  | error error => exact ⟨error, rfl⟩
  | ok a => cases h

namespace Promise

open Lowering

variable {c : Promise}

theorem KeptBy.nested {x : Lowering String} {wanted : String → Prop} (h : c.KeptBy x wanted) :
    c.KeptBy (nested x) wanted := by
  intro s text after hs hrun
  unfold Lowering.nested at hrun
  cases hx : x { s with depth := s.depth + 1 } with
  | mk outcome between =>
    rw [hx] at hrun
    cases hrun
    exact h { s with depth := s.depth + 1 } text between hs hx

theorem KeptBy.expanding {x : Lowering String} {wanted : String → Prop} (h : c.KeptBy x wanted)
    (name : String) : c.KeptBy (expanding name x) wanted := by
  intro s text after hs hrun
  unfold Lowering.expanding at hrun
  split at hrun
  · cases hx : x { s with expansions := s.expansions + 1 } with
    | mk outcome between =>
      rw [hx] at hrun
      cases hrun
      exact h { s with expansions := s.expansions + 1 } text between hs hx
  · cases hrun

/-- Rendering keeps the promise if lowering the operands does. -/
theorem keptBy_render {lower : Sexp → Lowering String}
    (hlower : ∀ e, c.admits e → c.KeptBy (lower e) (c.gives e)) {L : Layout}
    {wanted : String → Prop} (hL : L.Ensures c wanted) : c.KeptBy (L.render lower) wanted := by
  induction L generalizing wanted with
  | text t =>
    intro s text after hs hrun
    cases hrun
    exact ⟨hL, hs⟩
  | operand e =>
    intro s text after hs hrun
    obtain ⟨hgives, hafter⟩ := hlower e hL.1 s text after hs hrun
    exact ⟨hL.2 text hgives, hafter⟩
  | wrap how part ih =>
    intro s text after hs hrun
    obtain ⟨t, between, hpart, hrest⟩ := ok_of_bind hrun
    cases hrest
    exact ih hL s t _ hs hpart
  | join how first second ihfirst ihsecond =>
    intro s text after hs hrun
    obtain ⟨t, between, hfirst, hrest⟩ := ok_of_bind hrun
    obtain ⟨u, between', hsecond, hrest⟩ := ok_of_bind hrest
    cases hrest
    obtain ⟨hwanted, hbetween⟩ := ihfirst hL s t between hs hfirst
    exact ihsecond hwanted between u _ hbetween hsecond
  | reject fault =>
    intro s text after hs hrun
    cases hrun
  | define m =>
    intro s text after hs hrun
    cases hrun
    exact ⟨hL.2, Knows.define hs hL.1⟩

/-- The promise is kept with any room. -/
theorem Kept.lower (hc : c.Kept) (room : Nat) {e : Sexp} (he : c.admits e) :
    c.KeptBy (e.lower room) (c.gives e) := by
  induction room generalizing e with
  | zero =>
    intro s text after hs hrun
    cases hrun
  | succ room ih =>
    apply KeptBy.nested
    intro s text after hs hrun
    obtain ⟨registry, between, hregistry, hrest⟩ := ok_of_bind hrun
    cases hregistry
    cases hcall : s.registry.callOf? e with
    | none =>
      rw [hcall] at hrest
      exact keptBy_render (fun _ he' => ih he') (hc.layout e he) s text after hs hrest
    | some call =>
      obtain ⟨m, args⟩ := call
      rw [hcall] at hrest
      obtain ⟨name, rfl, hget⟩ := Registry.callOf?_eq_some_iff.mp hcall
      cases hexpand : m.expand args with
      | error error =>
        simp only [hexpand] at hrest
        cases hrest
      | ok expanded =>
        simp only [hexpand] at hrest
        have hknown := hs m (Registry.mem_of_get? hget)
        obtain ⟨hadmits, hgives⟩ := hc.expansion name m args expanded hknown he hexpand
        obtain ⟨htext, hafter⟩ := (ih hadmits).expanding m.name s text after hs hrest
        exact ⟨hgives text htext, hafter⟩

/-- **A promise that every layout keeps and that passes through macro calls is kept by lowering.** -/
theorem Kept.lowered (hc : c.Kept) {e : Sexp} (he : c.admits e) : c.KeptBy e.lowered (c.gives e) :=
  fun s => hc.lower (maxLowering - s.depth) he s

end Promise

end FormScript
