import Mathlib.Data.List.Nodup
import FormScript.Macro.Registry

/-!
# Registries as maps

A registry keeps its macros in a list, and a name stands for the first macro of that name. Defining a
macro changes what one name stands for and nothing else (`get?_define`); the names there were stay, in
their order (`names_define`).

A registry is `WellFormed` when no name stands in it twice and each of its macros has a body and distinct
parameters. Then every macro is found under its own name (`WellFormed.get?_eq_some_iff`), and the
definition of a well-formed macro leaves it well formed (`WellFormed.define`).
-/

namespace FormScript

/-- There is something to expand to, and no parameter hides another. -/
structure Macro.WellFormed (m : Macro) : Prop where
  body_ne_nil : m.body ≠ []
  params_nodup : m.params.Nodup

namespace Registry

/-- The names of the macros, in the order of their first definitions. -/
def names (r : Registry) : List String := r.macros.map Macro.name

/-! ## Looking up a name after a definition -/

/-- **A definition changes what one name stands for.** -/
theorem get?_define (r : Registry) (m : Macro) (name : String) :
    (r.define m).get? name = if m.name = name then some m else r.get? name := by
  obtain ⟨macros⟩ := r
  show (replaceOrAdd m macros).find? (fun n => decide (n.name = name))
    = if m.name = name then some m else macros.find? fun n => decide (n.name = name)
  induction macros with
  | nil => by_cases hname : m.name = name <;> simp [replaceOrAdd, hname]
  | cons n rest ih =>
    by_cases hsame : n.name = m.name
    · by_cases hname : m.name = name <;> simp [replaceOrAdd, hsame, hname]
    · rw [replaceOrAdd, if_neg hsame, List.find?_cons, List.find?_cons, ih]
      by_cases hn : n.name = name
      · have hm : m.name ≠ name := fun h => hsame (hn.trans h.symm)
        simp [hn, hm]
      · simp [hn]

theorem get?_define_self (r : Registry) (m : Macro) : (r.define m).get? m.name = some m := by
  rw [get?_define, if_pos rfl]

theorem get?_define_of_ne (r : Registry) {m : Macro} {name : String} (h : m.name ≠ name) :
    (r.define m).get? name = r.get? name := by
  rw [get?_define, if_neg h]

/-- The macro that a name stands for has that name. -/
theorem name_of_get? {r : Registry} {name : String} {m : Macro} (h : r.get? name = some m) :
    m.name = name := by
  have hname := List.find?_some h
  exact of_decide_eq_true hname

theorem mem_of_get? {r : Registry} {name : String} {m : Macro} (h : r.get? name = some m) :
    m ∈ r.macros := List.mem_of_find?_eq_some h

/-- A call is a round group whose head names a macro. -/
theorem callOf?_eq_some_iff {r : Registry} {e : Sexp} {m : Macro} {args : List Sexp} :
    r.callOf? e = some (m, args)
      ↔ ∃ name, e = .group .round (.symbol name :: args) ∧ r.get? name = some m := by
  unfold callOf?
  constructor
  · intro h
    split at h
    · rename_i name args'
      obtain ⟨n, hget, hpair⟩ := Option.map_eq_some_iff.mp h
      cases hpair
      exact ⟨name, rfl, hget⟩
    · cases h
  · rintro ⟨name, rfl, hget⟩
    simp only [hget, Option.map_some]

/-! ## The macros and their names -/

/-- A definition brings in the defined macro alone. -/
theorem mem_define {r : Registry} {m n : Macro} (h : n ∈ (r.define m).macros) :
    n = m ∨ n ∈ r.macros := by
  obtain ⟨macros⟩ := r
  have hn : n ∈ replaceOrAdd m macros := h
  show n = m ∨ n ∈ macros
  clear h
  induction macros with
  | nil => exact .inl (List.mem_singleton.mp hn)
  | cons k rest ih =>
    rw [replaceOrAdd] at hn
    split at hn
    · rcases List.mem_cons.mp hn with rfl | hrest
      · exact .inl rfl
      · exact .inr (List.mem_cons_of_mem k hrest)
    · rcases List.mem_cons.mp hn with rfl | hrest
      · exact .inr List.mem_cons_self
      · exact (ih hrest).imp_right (List.mem_cons_of_mem k)

/-- A new name comes last, and a name that is there stays where it is. -/
theorem names_define (r : Registry) (m : Macro) :
    (r.define m).names = if m.name ∈ r.names then r.names else r.names ++ [m.name] := by
  obtain ⟨macros⟩ := r
  show (replaceOrAdd m macros).map Macro.name
    = if m.name ∈ macros.map Macro.name then macros.map Macro.name
      else macros.map Macro.name ++ [m.name]
  induction macros with
  | nil => simp [replaceOrAdd]
  | cons n rest ih =>
    by_cases hsame : n.name = m.name
    · simp [replaceOrAdd, hsame]
    · rw [replaceOrAdd, if_neg hsame, List.map_cons, ih]
      have hne : m.name ≠ n.name := fun h => hsame h.symm
      by_cases hmem : m.name ∈ rest.map Macro.name
      · simp [hmem]
      · simp [hmem, hne]

theorem contains_define {r : Registry} {name : String} (h : r.contains name = true) (m : Macro) :
    (r.define m).contains name = true := by
  unfold contains
  rw [get?_define]
  by_cases hname : m.name = name
  · rw [if_pos hname]
    rfl
  · rw [if_neg hname]
    exact h

/-! ## Well-formed registries -/

/-- No name stands twice, and each macro is well formed. -/
structure WellFormed (r : Registry) : Prop where
  names_nodup : r.names.Nodup
  each : ∀ m ∈ r.macros, m.WellFormed

theorem empty_wellFormed : empty.WellFormed where
  names_nodup := List.nodup_nil
  each := fun _ hm => absurd hm List.not_mem_nil

namespace WellFormed

variable {r : Registry} (h : r.WellFormed)

include h

theorem define {m : Macro} (hm : m.WellFormed) : (r.define m).WellFormed where
  names_nodup := by
    rw [names_define]
    by_cases hknown : m.name ∈ r.names
    · rw [if_pos hknown]
      exact h.names_nodup
    · rw [if_neg hknown]
      exact List.nodup_append.mpr ⟨h.names_nodup, List.nodup_singleton _, by
        rintro name hname other hother rfl
        rw [List.mem_singleton.mp hother] at hname
        exact hknown hname⟩
  each := by
    intro n hn
    rcases mem_define hn with rfl | hold
    · exact hm
    · exact h.each n hold

/-- **Every macro is stored under its own name**, and a name stands for no other macro. -/
theorem get?_eq_some_iff {name : String} {m : Macro} :
    r.get? name = some m ↔ m ∈ r.macros ∧ m.name = name := by
  constructor
  · intro hget
    exact ⟨mem_of_get? hget, name_of_get? hget⟩
  · rintro ⟨hmem, rfl⟩
    cases hget : r.get? m.name with
    | none =>
      have hmissing := List.find?_eq_none.mp hget m hmem
      exact absurd (decide_eq_true rfl) hmissing
    | some n =>
      -- the two macros have one name, and no name stands twice
      have hsame := List.inj_on_of_nodup_map h.names_nodup (mem_of_get? hget) hmem
        (name_of_get? hget)
      rw [hsame]

end WellFormed

end Registry

end FormScript
