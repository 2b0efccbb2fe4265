import FormScript.Lowering.Lower

/-!
# What is under way

Lowering counts the expressions and the expansions that are under way, and its limits are limits on
these counts. A computation is `Steady` when it leaves both counts as it found them, whether it gives a
result or fails. Counting up and down again makes a steady computation of a steady one, and so does
everything else that lowering is built from, so **lowering is steady** (`Sexp.lowered_steady`).

Because the counts never drift, the room that `Sexp.lower` counts down is at every expression the room
that the count of expressions leaves, and lowering is described by the counts alone
(`Sexp.lowered_eq`).
-/

namespace FormScript

namespace Lowering

variable {α β : Type}

/-- The computation leaves the counts as it found them, also when it fails. -/
def Steady (x : Lowering α) : Prop :=
  ∀ s, (x s).2.depth = s.depth ∧ (x s).2.expansions = s.expansions

theorem steady_pure (a : α) : Steady (pure a : Lowering α) := fun _ => ⟨rfl, rfl⟩

theorem steady_fail (fault : Fault) : Steady (fail fault : Lowering α) := fun _ => ⟨rfl, rfl⟩

theorem steady_registry : Steady registry := fun _ => ⟨rfl, rfl⟩

theorem steady_define (m : Macro) : Steady (define m) := fun _ => ⟨rfl, rfl⟩

/-- What a computation followed by another one does, when the first one gives a result. -/
theorem bind_of_ok {x : Lowering α} {f : α → Lowering β} {s after : State} {a : α}
    (h : x s = (.ok a, after)) : (x >>= f) s = f a after := by
  simp only [bind, h]

/-- What a computation followed by another one does, when the first one fails. -/
theorem bind_of_error {x : Lowering α} {f : α → Lowering β} {s after : State} {fault : Fault}
    (h : x s = (.error fault, after)) : (x >>= f) s = (.error fault, after) := by
  simp only [bind, h]

/-- A computation that gives a result does so in its first step and in the rest of it. -/
theorem ok_of_bind {x : Lowering α} {f : α → Lowering β} {s after : State} {b : β}
    (h : (x >>= f) s = (.ok b, after)) :
    ∃ a between, x s = (.ok a, between) ∧ f a between = (.ok b, after) := by
  cases hrun : x s with
  | mk outcome between =>
    cases outcome with
    | error fault =>
      rw [bind_of_error hrun] at h
      cases h
    | ok a =>
      rw [bind_of_ok hrun] at h
      exact ⟨a, between, rfl, h⟩

theorem Steady.bind {x : Lowering α} {f : α → Lowering β} (hx : Steady x) (hf : ∀ a, Steady (f a)) :
    Steady (x >>= f) := by
  intro s
  obtain ⟨hdepth, hexpansions⟩ := hx s
  cases hrun : x s with
  | mk outcome after =>
    rw [hrun] at hdepth hexpansions
    cases outcome with
    | error fault =>
      rw [bind_of_error hrun]
      exact ⟨hdepth, hexpansions⟩
    | ok a =>
      rw [bind_of_ok hrun]
      obtain ⟨hdepth', hexpansions'⟩ := hf a after
      exact ⟨hdepth'.trans hdepth, hexpansions'.trans hexpansions⟩

/-- Of the state a steady computation changes the macros alone. -/
theorem Steady.state_eq {x : Lowering α} (h : Steady x) (s : State) :
    (x s).2 = { s with registry := (x s).2.registry } := by
  obtain ⟨hdepth, hexpansions⟩ := h s
  rw [← hdepth, ← hexpansions]

/-- What is counted up is counted down again. -/
theorem Steady.nested {body : Lowering α} (h : Steady body) : Steady (nested body) := by
  intro s
  obtain ⟨hdepth, hexpansions⟩ := h { s with depth := s.depth + 1 }
  constructor
  · show (body { s with depth := s.depth + 1 }).2.depth - 1 = s.depth
    rw [hdepth]
    exact Nat.add_sub_cancel s.depth 1
  · exact hexpansions

theorem Steady.expanding {body : Lowering α} (h : Steady body) (name : String) :
    Steady (expanding name body) := by
  intro s
  unfold Lowering.expanding
  by_cases hroom : s.expansions < maxExpansion
  · rw [if_pos hroom]
    obtain ⟨hdepth, hexpansions⟩ := h { s with expansions := s.expansions + 1 }
    constructor
    · exact hdepth
    · show (body { s with expansions := s.expansions + 1 }).2.expansions - 1 = s.expansions
      rw [hexpansions]
      exact Nat.add_sub_cancel s.expansions 1
  · rw [if_neg hroom]
    exact ⟨rfl, rfl⟩

/-- Two computations that begin alike and go on alike from there. -/
theorem bind_congr {x x' : Lowering α} {f g : α → Lowering β} {s : State} (hx : x s = x' s)
    (hfg : ∀ a after, x s = (.ok a, after) → f a after = g a after) :
    (x >>= f) s = (x' >>= g) s := by
  cases hrun : x s with
  | mk outcome after =>
    have hrun' := hx.symm.trans hrun
    cases outcome with
    | error fault => rw [bind_of_error hrun, bind_of_error hrun']
    | ok a =>
      rw [bind_of_ok hrun, bind_of_ok hrun']
      exact hfg a after hrun

theorem nested_congr {x y : Lowering α} {s : State}
    (h : x { s with depth := s.depth + 1 } = y { s with depth := s.depth + 1 }) :
    nested x s = nested y s := by
  unfold nested
  rw [h]

theorem expanding_congr {x y : Lowering α} {s : State}
    (h : x { s with expansions := s.expansions + 1 } = y { s with expansions := s.expansions + 1 })
    (name : String) : expanding name x s = expanding name y s := by
  unfold expanding
  rw [h]

end Lowering

namespace Layout

open Lowering

/-- Rendering is steady if lowering the operands is. -/
theorem render_steady {lower : Sexp → Lowering String} (h : ∀ e, Steady (lower e)) (L : Layout) :
    Steady (L.render lower) := by
  induction L with
  | text s => exact steady_pure s
  | operand e => exact h e
  | wrap how part ih => exact ih.bind fun s => steady_pure _
  | join how first second ihfirst ihsecond =>
    exact ihfirst.bind fun s => ihsecond.bind fun t => steady_pure _
  | reject fault => exact steady_fail fault
  | define m => exact (steady_define m).bind fun _ => steady_pure _

/-- Rendering lowers every operand at the depth at which it begins. -/
theorem render_congr {lower lower' : Sexp → Lowering String} (h : ∀ e, Steady (lower e))
    {depth : Nat} (heq : ∀ e s, s.depth = depth → lower e s = lower' e s) (L : Layout) {s : State}
    (hs : s.depth = depth) : L.render lower s = L.render lower' s := by
  induction L generalizing s with
  | text t => rfl
  | operand e => exact heq e s hs
  | wrap how part ih => exact bind_congr (ih hs) fun _ _ _ => rfl
  | join how first second ihfirst ihsecond =>
    refine bind_congr (ihfirst hs) fun t after hrun => ?_
    -- the first part is steady, so the second begins at the same depth
    have hafter := (render_steady h first s).1
    rw [hrun] at hafter
    exact bind_congr (ihsecond (hafter.trans hs)) fun _ _ _ => rfl
  | reject fault => rfl
  | define m => rfl

end Layout

namespace Sexp

open Lowering

/-- **Lowering is steady.** The induction is on the room that is left. -/
theorem lower_steady (room : Nat) (e : Sexp) : Steady (e.lower room) := by
  induction room generalizing e with
  | zero => exact steady_fail _
  | succ room ih =>
    refine Steady.nested (steady_registry.bind fun registry => ?_)
    split
    · split
      · exact steady_fail _
      · exact (ih _).expanding _
    · exact e.layout.render_steady ih

theorem lowered_steady (e : Sexp) : Steady e.lowered := fun s => e.lower_steady _ s

/-- With as much room as the expressions under way leave, lowering is lowering with the counts. -/
theorem lower_eq_lowered {room : Nat} {s : State} (h : maxLowering - s.depth = room) (e : Sexp) :
    e.lower room s = e.lowered s := by
  subst h
  rfl

/-- **Lowering goes by the counts.** An expression is refused if `maxLowering` expressions are under way.
    Otherwise it counts while it is lowered: a macro call is expanded, and the expansion is lowered as
    one more expansion; anything else is rendered, and its operands are lowered in the same way. -/
theorem lowered_eq (e : Sexp) (s : State) :
    e.lowered s =
      if s.depth < maxLowering then
        nested (do
          match (← Lowering.registry).callOf? e with
          | some (m, args) =>
            match m.expand args with
            | .error error => fail (.expansion m.name error)
            | .ok expanded => expanding m.name expanded.lowered
          | none => e.layout.render lowered) s
      else (.error (.shape (.nestedTooDeeply e.kind)), s) := by
  by_cases hroom : s.depth < maxLowering
  · rw [if_pos hroom]
    obtain ⟨room, hleft⟩ : ∃ room, maxLowering - s.depth = room + 1 :=
      ⟨maxLowering - (s.depth + 1), by omega⟩
    have hinner : ∀ (e : Sexp) (t : State), t.depth = s.depth + 1 → e.lower room t = e.lowered t :=
      fun e t ht => lower_eq_lowered (by omega) e
    rw [← lower_eq_lowered hleft, lower]
    refine nested_congr (bind_congr rfl fun registry after hrun => ?_)
    cases hrun
    -- one level further in, the room is again what the count leaves
    dsimp only
    cases s.registry.callOf? e with
    | none => exact e.layout.render_congr (lower_steady room) hinner rfl
    | some call =>
      obtain ⟨m, args⟩ := call
      dsimp only
      cases m.expand args with
      | error error => rfl
      | ok expanded => exact expanding_congr (hinner _ _ rfl) _
  · rw [if_neg hroom, ← lower_eq_lowered (show maxLowering - s.depth = 0 by omega)]
    rfl

/-- An expression that calls no macro is rendered from its layout. -/
theorem lowered_of_no_call {e : Sexp} {s : State} (hdepth : s.depth < maxLowering)
    (hcall : s.registry.callOf? e = none) : e.lowered s = nested (e.layout.render lowered) s := by
  rw [lowered_eq, if_pos hdepth]
  apply nested_congr
  have hrun : registry { s with depth := s.depth + 1 }
      = (.ok s.registry, { s with depth := s.depth + 1 }) := rfl
  rw [bind_of_ok hrun, hcall]

/-- Where no macro is defined, an expression is rendered from its layout. -/
theorem lower_of_bare {s : State} (hs : s.registry = .empty) (room : Nat) (e : Sexp) :
    e.lower (room + 1) s = nested (e.layout.render (lower room)) s := by
  have hcall : Registry.empty.callOf? e = none := by
    unfold Registry.callOf?
    split
    · rfl
    · rfl
  have hregistry : registry { s with depth := s.depth + 1 }
      = (.ok .empty, { s with depth := s.depth + 1 }) := by
    rw [registry, hs]
  rw [lower]
  apply nested_congr
  rw [bind_of_ok hregistry, hcall]

end Sexp

end FormScript
