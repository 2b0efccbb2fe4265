import FormScript.Proofs.Macro.Expansion

/-!
# When an expansion finds no body

Evaluation of an expression can fail for many reasons, but the lack of a macro body is none of them
(`Sexp.eval_ne_noBody`). So a call is refused for it in one case only: the macro has no body, and there
is an argument for each parameter (`Macro.expand_eq_noBody_iff`).
-/

namespace FormScript

namespace Sexp

/-- What no part of a computation fails with, the computation does not fail with. -/
theorem bind_ne_error {ε α β : Type} {x : Except ε α} {f : α → Except ε β} {error : ε}
    (hx : x ≠ .error error) (hf : ∀ a, f a ≠ .error error) : (x >>= f) ≠ .error error := by
  cases x with
  | error other =>
    intro h
    cases h
    exact hx rfl
  | ok a => exact hf a

theorem ok_ne_error {ε α : Type} {a : α} {error : ε} : (.ok a : Except ε α) ≠ .error error := by
  intro h
  cases h

variable {env : Bindings}

/-- No special form lacks a body, unless one of its operands does. -/
theorem not_gives_noBody {form : Special} {es : List Sexp} (hes : ∀ e ∈ es, e.eval env ≠ .error .noBody) :
    ¬ form.Gives env es (.error .noBody) := by
  intro h
  cases h with
  | yes _ _ _ hyes => exact hes _ (by simp) hyes
  | no _ _ hno => exact hes _ (by simp) hno
  | operandFails he hfails => exact hes _ he hfails

theorem eval_ne_noBody (e : Sexp) : e.eval env ≠ .error .noBody := by
  induction e using byParts with
  | step e ih =>
    intro h
    have hstep := eval_evaluates env e
    rw [h] at hstep
    cases hstep with
    | partFails hpart hfails => exact ih _ hpart hfails
    | special _ hgives =>
      exact not_gives_noBody (fun operand hoperand => ih operand (List.mem_cons_of_mem _ hoperand)) hgives

end Sexp

namespace Macro

open Sexp

theorem bindPairs_ne_noBody (env : Bindings) (pairs : List Sexp) :
    bindPairs env pairs ≠ .error .noBody := by
  fun_induction bindPairs env pairs with
  | case1 env target value rest name hname ih => exact bind_ne_error (eval_ne_noBody value) ih
  | case2 env target value rest hname => simp
  | case3 env pairs hshort => simp

theorem runStatement_ne_noBody (env : Bindings) (statement : Sexp) :
    runStatement env statement ≠ .error .noBody := by
  unfold runStatement
  split
  · unfold bindLet
    split
    · simp
    · exact bindPairs_ne_noBody _ _
  · exact bind_ne_error (eval_ne_noBody _) fun _ => ok_ne_error

theorem runBody_ne_noBody {body : List Sexp} (h : body ≠ []) (env : Bindings) :
    runBody env body ≠ .error .noBody := by
  fun_induction runBody env body with
  | case1 => exact absurd rfl h
  | case2 env result => exact eval_ne_noBody result
  | case3 env statement rest hrest ih =>
    exact bind_ne_error (runStatement_ne_noBody env statement) fun after => ih after hrest

/-- **A call finds no body only in a macro that has none.** -/
theorem expand_eq_noBody_iff {m : Macro} {args : List Sexp} :
    m.expand args = .error .noBody ↔ args.length = m.params.length ∧ m.body = [] := by
  unfold expand
  constructor
  · intro h
    split at h
    · rename_i hcount
      refine ⟨hcount, ?_⟩
      by_cases hbody : m.body = []
      · exact hbody
      · exact absurd h (runBody_ne_noBody hbody _)
    · cases h
  · rintro ⟨hcount, hbody⟩
    rw [if_pos hcount, hbody, runBody]

end Macro

end FormScript
