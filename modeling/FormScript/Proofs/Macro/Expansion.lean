import FormScript.Macro.Registry
import FormScript.Proofs.Macro.Evaluation

/-!
# What expansions are made of

A macro body is built from atoms, and so are the arguments of a call. Evaluation takes them apart and
puts them together again; the only atoms it makes up itself are numbers and the symbols `true`,
`false` and `null`. So a property of atoms that these have (`Closed`) passes from the body and the
arguments to the expansion (`expand_every`). The proof goes through the rules of evaluation
(`Sexp.Evaluates`, `Special.Gives`) for those that give a value.
-/

namespace FormScript

namespace Sexp

/-! ## A property of all atoms -/

mutual

/-- Every atom of the expression has the property. -/
def Every (p : Sexp → Prop) : Sexp → Prop
  | .number x => p (.number x)
  | .symbol name => p (.symbol name)
  | .string content => p (.string content)
  | .regex pattern flags => p (.regex pattern flags)
  | .group _ items => EveryIn p items

/-- Every atom of the expressions has the property. -/
def EveryIn (p : Sexp → Prop) : List Sexp → Prop
  | [] => True
  | e :: es => Every p e ∧ EveryIn p es

end

theorem everyIn_iff {p : Sexp → Prop} {es : List Sexp} : EveryIn p es ↔ ∀ e ∈ es, e.Every p := by
  induction es with
  | nil => simp [EveryIn]
  | cons e es ih => simp [EveryIn, ih]

@[simp] theorem every_number {p : Sexp → Prop} {x : Number} :
    (number x).Every p ↔ p (.number x) := by rw [Every]

@[simp] theorem every_symbol {p : Sexp → Prop} {name : String} :
    (symbol name).Every p ↔ p (.symbol name) := by rw [Every]

@[simp] theorem every_string {p : Sexp → Prop} {content : String} :
    (string content).Every p ↔ p (.string content) := by rw [Every]

@[simp] theorem every_regex {p : Sexp → Prop} {pattern flags : String} :
    (regex pattern flags).Every p ↔ p (.regex pattern flags) := by rw [Every]

@[simp] theorem every_group {p : Sexp → Prop} {b : Bracket} {items : List Sexp} :
    (group b items).Every p ↔ ∀ e ∈ items, e.Every p := by rw [Every, everyIn_iff]

theorem every_atom {p : Sexp → Prop} {e : Sexp} (h : e.elements? = none) : e.Every p ↔ p e := by
  cases e with
  | number x => exact every_number
  | symbol name => exact every_symbol
  | string content => exact every_string
  | regex pattern flags => exact every_regex
  | group b items => cases h

mutual

/-- What follows from two properties of each atom holds of all atoms. -/
theorem Every.combine {p q r : Sexp → Prop} (h : ∀ a, p a → q a → r a) (e : Sexp) (hp : e.Every p)
    (hq : e.Every q) : e.Every r := by
  cases e with
  | number x => exact every_number.mpr (h _ (every_number.mp hp) (every_number.mp hq))
  | symbol name => exact every_symbol.mpr (h _ (every_symbol.mp hp) (every_symbol.mp hq))
  | string content => exact every_string.mpr (h _ (every_string.mp hp) (every_string.mp hq))
  | regex pattern flags => exact every_regex.mpr (h _ (every_regex.mp hp) (every_regex.mp hq))
  | group b items =>
    rw [Every] at hp hq ⊢
    exact EveryIn.combine h items hp hq

theorem EveryIn.combine {p q r : Sexp → Prop} (h : ∀ a, p a → q a → r a) (es : List Sexp)
    (hp : EveryIn p es) (hq : EveryIn q es) : EveryIn r es := by
  cases es with
  | nil => exact trivial
  | cons e es =>
    rw [EveryIn] at hp hq ⊢
    exact ⟨Every.combine h e hp.1 hq.1, EveryIn.combine h es hp.2 hq.2⟩

end

mutual

instance decidableEvery (p : Sexp → Prop) [DecidablePred p] : (e : Sexp) → Decidable (e.Every p)
  | .number x => inferInstanceAs (Decidable (p (.number x)))
  | .symbol name => inferInstanceAs (Decidable (p (.symbol name)))
  | .string content => inferInstanceAs (Decidable (p (.string content)))
  | .regex pattern flags => inferInstanceAs (Decidable (p (.regex pattern flags)))
  | .group _ items => decidableEveryIn p items

instance decidableEveryIn (p : Sexp → Prop) [DecidablePred p] :
    (es : List Sexp) → Decidable (EveryIn p es)
  | [] => .isTrue trivial
  | e :: es =>
    match decidableEvery p e, decidableEveryIn p es with
    | .isTrue he, .isTrue hes => .isTrue ⟨he, hes⟩
    | .isFalse he, _ => .isFalse fun h => he h.1
    | _, .isFalse hes => .isFalse fun h => hes h.2

end

/-- The atoms that evaluation makes up have the property. -/
structure Closed (p : Sexp → Prop) : Prop where
  number : ∀ x, p (.number x)
  yes : p (.symbol "true")
  no : p (.symbol "false")
  null : p (.symbol "null")

namespace Closed

variable {p : Sexp → Prop} (hp : Closed p)
include hp

theorem ofBool (b : Bool) : (ofBool b).Every p := by
  cases b with
  | true => exact every_symbol.mpr hp.yes
  | false => exact every_symbol.mpr hp.no

/-- An operator that can be carried out gives a number or a truth value. -/
theorem ofFold {op : String} {operands : List Sexp} {e : Sexp}
    (h : Constant.fold? op operands = some e) : e.Every p := by
  have hnumbers : ∀ {x : Number} {xs : List Number}, Constant.ofNumbers? op x xs = some e →
      e.Every p := by
    intro x xs hfold
    unfold Constant.ofNumbers? at hfold
    split at hfold
    · cases hfold
      exact every_number.mpr (hp.number _)
    · cases hfold
      exact hp.ofBool _
    · split at hfold
      · cases hfold
        exact hp.ofBool _
      · cases hfold
  have hstrings : ∀ {s t : String}, Constant.ofStrings? op s t = some e → e.Every p := by
    intro s t hfold
    unfold Constant.ofStrings? at hfold
    split at hfold
    all_goals cases hfold
    all_goals exact hp.ofBool _
  unfold Constant.fold? at h
  split at h
  · exact hnumbers h
  · exact hstrings h
  · cases h

end Closed

/-! ## Evaluation -/

theorem every_elements {p : Sexp → Prop} {e : Sexp} {items : List Sexp} (h : e.elements? = some items)
    (he : e.Every p) : ∀ item ∈ items, item.Every p := by
  cases e with
  | group b items' =>
    cases h
    exact every_group.mp he
  | number x => cases h
  | symbol name => cases h
  | string content => cases h
  | regex pattern flags => cases h

theorem regroup_every {p : Sexp → Prop} {value : Sexp} {items : List Sexp}
    (h : ∀ item ∈ items, item.Every p) : (value.regroup items).Every p := by
  unfold regroup
  split <;> exact every_group.mpr h

end Sexp

namespace Bindings

/-- Every value of a bound name has only atoms with the property. -/
def Every (p : Sexp → Prop) (env : Bindings) : Prop :=
  ∀ name value, env.get? name = some value → value.Every p

variable {p : Sexp → Prop} {env : Bindings}

/-- A symbol stands for its value or for itself. -/
theorem Every.getD (henv : env.Every p) {name : String} (h : p (.symbol name)) :
    ((env.get? name).getD (.symbol name)).Every p := by
  cases hget : env.get? name with
  | none => exact Sexp.every_symbol.mpr h
  | some value => exact henv name value hget

theorem Every.bind (henv : env.Every p) {name : String} {value : Sexp} (hvalue : value.Every p) :
    Every p ((name, value) :: env) := by
  intro other found hget
  simp only [get?] at hget
  split at hget
  · cases hget
    exact hvalue
  · exact henv other found hget

theorem get?_mem {name : String} {value : Sexp} (h : env.get? name = some value) :
    (name, value) ∈ env := by
  induction env with
  | nil => cases h
  | cons binding rest ih =>
    obtain ⟨bound, found⟩ := binding
    simp only [get?] at h
    split at h
    · rename_i hname
      cases h
      rw [hname]
      exact List.mem_cons_self
    · exact List.mem_cons_of_mem _ (ih h)

theorem every_ofParams {params : List String} {args : List Sexp} (hargs : ∀ e ∈ args, e.Every p) :
    (ofParams params args).Every p := by
  intro name value hget
  have hmem := get?_mem hget
  rw [ofParams, List.mem_reverse] at hmem
  exact hargs value (List.of_mem_zip hmem).2

end Bindings

namespace Sexp

variable {p : Sexp → Prop} {env : Bindings}

/-- A special form makes its value of the operands and of their values. Where an `if` cannot be decided it is
    rebuilt under its own name. -/
theorem every_of_gives (hp : Closed p) {form : Special} {es : List Sexp} {v : Sexp}
    (hform : p (.symbol form.name)) (hes : ∀ e ∈ es, e.Every p)
    (hvalues : ∀ e ∈ es, ∀ value, e.eval env = .ok value → value.Every p)
    (h : form.Gives env es (.ok v)) : v.Every p := by
  have hall : ∀ {values : List Sexp}, evalAll env es = .ok values → ∀ value ∈ values, value.Every p := by
    intro values hok value hvalue
    obtain ⟨e, he, heval⟩ := mem_of_evalAll hok value hvalue
    exact hvalues e he value heval
  cases h with
  | quoted => exact hes v List.mem_cons_self
  | quotedAll _ => exact every_group.mpr hes
  | listed hok => exact every_group.mpr (hall hok)
  | yes _ _ _ hyes => exact hvalues _ (by simp) v hyes
  | no _ _ hno => exact hvalues _ (by simp) v hno
  | null _ _ => exact every_symbol.mpr hp.null
  | undecided _ hok _ => exact every_group.mpr (List.forall_mem_cons.mpr ⟨every_symbol.mpr hform, hall hok⟩)
  | tested _ _ => exact hp.ofBool _
  | counted _ _ => exact every_number.mpr (hp.number _)
  | nth hvalue hitems _ _ hitem =>
    exact every_elements hitems (hvalues _ List.mem_cons_self _ hvalue) v (List.mem_of_getElem? hitem)
  | first hvalue hitems hitem =>
    exact every_elements hitems (hvalues _ List.mem_cons_self _ hvalue) v (List.mem_of_getElem? hitem)
  | rest hvalue hitems =>
    have helements := every_elements hitems (hvalues _ List.mem_cons_self _ hvalue)
    exact regroup_every fun item hitem => helements item (List.mem_of_mem_tail hitem)

/-- The value of an expression is made of the atoms of the expression and of the bound values. -/
theorem eval_every (hp : Closed p) (henv : env.Every p) (e : Sexp) (he : e.Every p) {v : Sexp}
    (h : e.eval env = .ok v) : v.Every p := by
  induction e using byParts generalizing v with
  | step e ih =>
    have hstep := eval_evaluates env e
    rw [h] at hstep
    cases hstep with
    | literal _ _ => exact he
    | symbol => exact henv.getD (every_symbol.mp he)
    | rebuilt hok =>
      rw [every_group] at he ⊢
      intro value hvalue
      obtain ⟨part, hpart, heval⟩ := mem_of_evalAll hok value hvalue
      exact ih part hpart (he part hpart) heval
    | folded _ _ _ hfold => exact hp.ofFold hfold
    | special _ hgives =>
      rw [every_group] at he
      obtain ⟨hname, hoperands⟩ := List.forall_mem_cons.mp he
      refine every_of_gives hp (every_symbol.mp hname) hoperands ?_ hgives
      intro operand hoperand value heval
      exact ih operand (List.mem_cons_of_mem _ hoperand) (hoperands operand hoperand) heval

end Sexp

/-! ## Macros -/

namespace Macro

variable {p : Sexp → Prop} {env : Bindings}

theorem bindPairs_every (hp : Sexp.Closed p) {pairs : List Sexp} (hpairs : ∀ e ∈ pairs, e.Every p)
    (henv : env.Every p) {after : Bindings} (h : bindPairs env pairs = .ok after) :
    after.Every p := by
  fun_induction bindPairs env pairs with
  | case1 env target value rest name hname ih =>
    obtain ⟨result, hresult, h⟩ := Sexp.ok_of_bind h
    obtain ⟨_, hvalue, hrest⟩ : _ ∧ value.Every p ∧ _ := by
      simpa only [List.forall_mem_cons] using hpairs
    exact ih result hrest (henv.bind (Sexp.eval_every hp henv value hvalue hresult)) h
  | case2 env target value rest hname => cases h
  | case3 env pairs hshort =>
    cases h
    exact henv

theorem runStatement_every (hp : Sexp.Closed p) {statement : Sexp} (hstatement : statement.Every p)
    (henv : env.Every p) {after : Bindings} (h : runStatement env statement = .ok after) :
    after.Every p := by
  unfold runStatement at h
  split at h
  · rename_i pairs
    rw [Sexp.every_group, List.forall_mem_cons] at hstatement
    unfold bindLet at h
    split at h
    · cases h
    · exact bindPairs_every hp hstatement.2 henv h
  · obtain ⟨value, _, h⟩ := Sexp.ok_of_bind h
    cases h
    exact henv

theorem runBody_every (hp : Sexp.Closed p) {body : List Sexp} (hbody : ∀ e ∈ body, e.Every p)
    (henv : env.Every p) {e : Sexp} (h : runBody env body = .ok e) : e.Every p := by
  fun_induction runBody env body with
  | case1 => cases h
  | case2 env result => exact Sexp.eval_every hp henv result (hbody result List.mem_cons_self) h
  | case3 env statement rest hrest ih =>
    obtain ⟨after, hafter, h⟩ := Sexp.ok_of_bind h
    obtain ⟨hstatement, hbody⟩ := List.forall_mem_cons.mp hbody
    exact ih after hbody (runStatement_every hp hstatement henv hafter) h

/-- **An expansion is made of the atoms of the macro and of the call**, and of numbers, `true`, `false`
    and `null`. -/
theorem expand_every (hp : Sexp.Closed p) {m : Macro} (hbody : ∀ e ∈ m.body, e.Every p)
    {args : List Sexp} (hargs : ∀ e ∈ args, e.Every p) {e : Sexp} (h : m.expand args = .ok e) :
    e.Every p := by
  unfold expand at h
  split at h
  · exact runBody_every hp hbody (Bindings.every_ofParams hargs) h
  · cases h

end Macro

end FormScript
