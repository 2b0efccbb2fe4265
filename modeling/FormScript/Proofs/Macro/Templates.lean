import Mathlib.Data.List.Nodup
import Mathlib.Data.List.Perm.Basic
import FormScript.Proofs.Macro.Expansion

/-!
# Macros that are templates

A macro body may decide, count and compute. A body that does nothing of the kind is a *template*: no form in
it begins with a name that evaluation has a rule for, unless the name is a parameter and stands for an
argument. Evaluation then puts the arguments in the place of the parameters, all at once, and leaves
everything else as it is (`Sexp.eval_of_template`). What is put in is not looked at: it may have parameters
in it, forms that evaluation has a rule for, and even a `fail`.

`Sexp.substitute` is this replacement, and `Sexp.at?` says what stands at a place of an expression, so that
it can also be told place by place.
-/

namespace FormScript

namespace Sexp

/-! ## Places and templates -/

/-- What stands at a place of an expression; the place is the list of the indices that lead there. -/
def at? (e : Sexp) : List Nat → Option Sexp
  | [] => some e
  | i :: place => (e.elements?.bind fun items => items[i]?).bind fun item => item.at? place

@[simp] theorem at?_nil (e : Sexp) : e.at? [] = some e := rfl

theorem at?_group_cons (b : Bracket) (items : List Sexp) (i : Nat) (place : List Nat) :
    (group b items).at? (i :: place) = items[i]?.bind fun item => item.at? place := rfl

/-- An atom has no places inside it. -/
theorem at?_atom {e : Sexp} (h : e.elements? = none) {place : List Nat} {a : Sexp}
    (ha : e.at? place = some a) : place = [] ∧ a = e := by
  cases place with
  | nil =>
    cases ha
    exact ⟨rfl, rfl⟩
  | cons i place =>
    rw [at?, h] at ha
    cases ha

/-- The operators that are carried out on constants. -/
def foldingOperators : List String :=
  ["+", "-", "*", "/", "%", "<", ">", "<=", ">=", "=", "same", "!="]

/-- The names that evaluation has a rule for. -/
def ruledNames : List String :=
  ["quote", "fail", "if", "symbol?", "number?", "string?", "form?", "count", "nth", "first", "rest",
    "list"] ++ foldingOperators

/-- Wherever a form in the expression begins with a symbol, the symbol is a parameter or evaluation has no
    rule for it. -/
def Template (params : List String) (e : Sexp) : Prop :=
  ∀ place name operands, e.at? place = some (.group .round (.symbol name :: operands)) →
    name ∈ params ∨ name ∉ ruledNames

variable {params : List String}

theorem template_atom {e : Sexp} (h : e.elements? = none) : e.Template params := by
  intro place name operands hat
  rw [← (at?_atom h hat).2] at h
  cases h

@[simp] theorem template_number (x : Number) : (number x).Template params := template_atom rfl

@[simp] theorem template_symbol (name : String) : (symbol name).Template params := template_atom rfl

@[simp] theorem template_group {b : Bracket} {items : List Sexp} :
    (group b items).Template params
      ↔ (∀ name operands, b = .round → items = .symbol name :: operands →
          name ∈ params ∨ name ∉ ruledNames)
        ∧ ∀ e ∈ items, e.Template params := by
  constructor
  · intro h
    constructor
    · rintro name operands rfl rfl
      exact h [] name operands rfl
    · intro e he place name operands hat
      obtain ⟨i, hi⟩ := List.getElem?_of_mem he
      apply h (i :: place) name operands
      rw [at?_group_cons, hi]
      exact hat
  · rintro ⟨hhead, hitems⟩ place name operands hat
    cases place with
    | nil =>
      cases hat
      exact hhead name operands rfl rfl
    | cons i place =>
      rw [at?_group_cons] at hat
      obtain ⟨e, he, hat⟩ := Option.bind_eq_some_iff.mp hat
      exact hitems e (List.mem_of_getElem? he) place name operands hat

/-! ## Substitution -/

mutual

/-- The expression with every symbol that `σ` has an expression for replaced by it; what is put in stays as
    it is. -/
def substitute (σ : String → Option Sexp) : Sexp → Sexp
  | .number x => .number x
  | .symbol name => (σ name).getD (.symbol name)
  | .string content => .string content
  | .regex pattern flags => .regex pattern flags
  | .group b items => .group b (substituteAll σ items)

/-- The expressions with the symbols in each of them replaced. -/
def substituteAll (σ : String → Option Sexp) : List Sexp → List Sexp
  | [] => []
  | e :: es => substitute σ e :: substituteAll σ es

end

theorem substituteAll_eq_map (σ : String → Option Sexp) (es : List Sexp) :
    substituteAll σ es = es.map (substitute σ) := by
  induction es with
  | nil => rw [substituteAll, List.map_nil]
  | cons e es ih => rw [substituteAll, ih, List.map_cons]

theorem substitute_group (σ : String → Option Sexp) (b : Bracket) (items : List Sexp) :
    (group b items).substitute σ = .group b (items.map (substitute σ)) := by
  rw [substitute, substituteAll_eq_map]

/-- **What stands at a place of an expression is replaced there**, whatever is around it. -/
theorem at?_substitute {σ : String → Option Sexp} {e a : Sexp} {place : List Nat}
    (h : e.at? place = some a) : (e.substitute σ).at? place = some (a.substitute σ) := by
  induction place generalizing e with
  | nil =>
    cases h
    rfl
  | cons i place ih =>
    cases e with
    | group b items =>
      rw [at?_group_cons] at h
      obtain ⟨item, hitem, hat⟩ := Option.bind_eq_some_iff.mp h
      rw [substitute_group, at?_group_cons, List.getElem?_map, hitem]
      exact ih hat
    | number x => cases h
    | symbol name => cases h
    | string content => cases h
    | regex pattern flags => cases h

/-! ## Evaluation of templates -/

theorem ofName?_eq_none {name : String} (h : name ∉ ruledNames) : Special.ofName? name = none := by
  apply List.find?_eq_none.mpr
  intro form _ hname
  apply h
  rw [← of_decide_eq_true hname]
  cases form <;> decide

theorem fold?_eq_none {name : String} (h : name ∉ ruledNames) (operands : List Sexp) :
    Constant.fold? name operands = none := by
  have hoperator : name ∉ foldingOperators := fun hmem => h (List.mem_append_right _ hmem)
  have harithmetic : Constant.arithmetic? name = none := by
    unfold Constant.arithmetic?
    split <;> simp_all [foldingOperators]
  have hcomparison : Constant.comparison? name = none := by
    unfold Constant.comparison?
    split <;> simp_all [foldingOperators]
  have hnumbers : ∀ x xs, Constant.ofNumbers? name x xs = none := by
    intro x xs
    unfold Constant.ofNumbers?
    rw [harithmetic, hcomparison]
    dsimp only
    split
    · exact absurd (by decide) hoperator
    · rfl
  have hstrings : ∀ s t, Constant.ofStrings? name s t = none := by
    intro s t
    unfold Constant.ofStrings?
    split <;> simp_all [foldingOperators]
  unfold Constant.fold?
  split
  · exact hnumbers _ _
  · exact hstrings _ _
  · rfl

variable {env : Bindings}

mutual

/-- **The value of a template is the template with the bound names replaced.** The induction is on the
    template; the values of the bound names are never gone into. -/
theorem eval_of_template (hbound : ∀ name ∈ params, env.get? name ≠ none) (e : Sexp)
    (h : e.Template params) : e.eval env = .ok (e.substitute env.get?) := by
  cases e with
  | number x => rfl
  | string content => rfl
  | regex pattern flags => rfl
  | symbol name => rfl
  | group b items =>
    obtain ⟨hhead, hitems⟩ := template_group.mp h
    rw [substitute_group]
    by_cases hform : ∃ name operands, b = .round ∧ items = .symbol name :: operands
    · obtain ⟨name, operands, rfl, rfl⟩ := hform
      have hvalues := evalAll_of_template hbound operands (List.forall_mem_cons.mp hitems).2
      rw [List.map_cons, substitute]
      cases hget : env.get? name with
      | some value =>
        rw [eval_of_bound hget, hvalues]
        rfl
      | none =>
        -- a name that is not bound is no parameter, so evaluation has no rule for it
        have hruled : name ∉ ruledNames := by
          rcases hhead name operands rfl rfl with hparam | hruled
          · exact absurd hget (hbound name hparam)
          · exact hruled
        rw [eval_of_ordinary hget (ofName?_eq_none hruled), hvalues]
        show Except.ok ((Constant.fold? name _).getD _) = _
        rw [fold?_eq_none hruled]
        rfl
    · rw [eval, evalAll_of_template hbound items hitems]
      · rfl
      · intro name operands hbracket hcons
        exact hform ⟨name, operands, hbracket, hcons⟩
termination_by sizeOf e
decreasing_by
  all_goals
    subst_vars
    simp only [group.sizeOf_spec, symbol.sizeOf_spec, List.cons.sizeOf_spec]
    omega

theorem evalAll_of_template (hbound : ∀ name ∈ params, env.get? name ≠ none) (es : List Sexp)
    (h : ∀ e ∈ es, e.Template params) : evalAll env es = .ok (es.map (substitute env.get?)) := by
  cases es with
  | nil => rfl
  | cons e es =>
    obtain ⟨he, hes⟩ := List.forall_mem_cons.mp h
    rw [evalAll, eval_of_template hbound e he, evalAll_of_template hbound es hes]
    rfl
termination_by sizeOf es

end

end Sexp

/-! ## Bindings of distinct names -/

namespace Bindings

/-- Where no name is bound twice, a name stands for what it is bound to. -/
theorem get?_eq_some_iff {env : Bindings} (h : (env.map Prod.fst).Nodup) {name : String} {value : Sexp} :
    env.get? name = some value ↔ (name, value) ∈ env := by
  refine ⟨get?_mem, ?_⟩
  induction env with
  | nil => exact fun hmem => absurd hmem List.not_mem_nil
  | cons binding env ih =>
    obtain ⟨bound, found⟩ := binding
    obtain ⟨hfresh, hrest⟩ := List.nodup_cons.mp h
    intro hmem
    rw [get?]
    rcases List.mem_cons.mp hmem with heq | hmem
    · cases heq
      rw [if_pos rfl]
    · have hne : bound ≠ name := by
        rintro rfl
        exact hfresh (List.mem_map.mpr ⟨_, hmem, rfl⟩)
      rw [if_neg hne]
      exact ih hrest hmem

/-- Where no name is bound twice, the order of the bindings does not matter. -/
theorem get?_perm {env env' : Bindings} (h : (env.map Prod.fst).Nodup) (hperm : env.Perm env') :
    env.get? = env'.get? := by
  have h' : (env'.map Prod.fst).Nodup := (hperm.map Prod.fst).nodup_iff.mp h
  funext name
  apply Option.ext
  intro value
  rw [get?_eq_some_iff h, get?_eq_some_iff h', hperm.mem_iff]

end Bindings

namespace Macro

theorem names_zip {params : List String} {args : List Sexp} (h : args.length = params.length) :
    (params.zip args).map Prod.fst = params :=
  List.map_fst_zip (Nat.le_of_eq h.symm)

/-- A macro whose body is a template expands to the template with the arguments in it. -/
theorem expand_of_template {m : Macro} {b : Sexp} {args : List Sexp} (hbody : m.body = [b])
    (hparams : m.params.Nodup) (htemplate : b.Template m.params)
    (hargs : args.length = m.params.length) :
    m.expand args = .ok (b.substitute (Bindings.get? (m.params.zip args))) := by
  have hnames : ((m.params.zip args).map Prod.fst).Nodup := by
    rw [names_zip hargs]
    exact hparams
  have hlookup : (Bindings.ofParams m.params args).get? = Bindings.get? (m.params.zip args) :=
    (Bindings.get?_perm hnames (List.reverse_perm _).symm).symm
  have hbound : ∀ name ∈ m.params, (Bindings.ofParams m.params args).get? name ≠ none := by
    intro name hname
    rw [← names_zip hargs] at hname
    obtain ⟨⟨_, value⟩, hmem, rfl⟩ := List.mem_map.mp hname
    rw [hlookup, (Bindings.get?_eq_some_iff hnames).mpr hmem]
    exact Option.some_ne_none value
  rw [expand, if_pos hargs, hbody, runBody, Sexp.eval_of_template hbound b htemplate, hlookup]

end Macro

/-- **Template macros substitute all at once.** Let a macro have distinct parameters and a template as its
    body, and let there be an argument for each parameter.

    * The call expands to the body with every parameter replaced by its argument.
    * At every place of the body where a parameter stands, the argument stands as it is. At every place of
      another atom the atom stays, and a group stays a group of as many elements in the same bracket.
    * Parameters and arguments may be listed in any order, as long as each parameter keeps its argument. -/
theorem templates_substitute (m : Macro) (b : Sexp) (args : List Sexp) (hbody : m.body = [b])
    (hparams : m.params.Nodup) (htemplate : b.Template m.params)
    (hargs : args.length = m.params.length) :
    ∃ expanded, m.expand args = .ok expanded
      ∧ expanded = b.substitute (Bindings.get? (m.params.zip args))
      ∧ (∀ place (i : Nat) param arg, b.at? place = some (.symbol param) → m.params[i]? = some param →
          args[i]? = some arg → expanded.at? place = some arg)
      ∧ (∀ place a, b.at? place = some a → a.elements? = none → (∀ p ∈ m.params, a ≠ .symbol p) →
          expanded.at? place = some a)
      ∧ (∀ place bracket items, b.at? place = some (.group bracket items) →
          ∃ items', expanded.at? place = some (.group bracket items') ∧ items'.length = items.length)
      ∧ ∀ (m' : Macro) (args' : List Sexp), m'.body = m.body → args'.length = m'.params.length →
          (m'.params.zip args').Perm (m.params.zip args) → m'.expand args' = .ok expanded := by
  have hnames : ((m.params.zip args).map Prod.fst).Nodup := by
    rw [Macro.names_zip hargs]
    exact hparams
  refine ⟨_, Macro.expand_of_template hbody hparams htemplate hargs, rfl, ?_, ?_, ?_, ?_⟩
  · intro place i param arg hat hparam harg
    have hbound : (param, arg) ∈ m.params.zip args := by
      apply List.mem_of_getElem? (i := i)
      rw [List.getElem?_zip_eq_some]
      exact ⟨hparam, harg⟩
    rw [Sexp.at?_substitute hat, Sexp.substitute, (Bindings.get?_eq_some_iff hnames).mpr hbound]
    rfl
  · intro place a hat hatom hother
    rw [Sexp.at?_substitute hat]
    cases a with
    | group bracket items => cases hatom
    | number x => rw [Sexp.substitute]
    | string content => rw [Sexp.substitute]
    | regex pattern flags => rw [Sexp.substitute]
    | symbol name =>
      have hfree : Bindings.get? (m.params.zip args) name = none := by
        rw [Option.eq_none_iff_forall_ne_some]
        intro value hvalue
        exact hother name (List.of_mem_zip (Bindings.get?_mem hvalue)).1 rfl
      rw [Sexp.substitute, hfree]
      rfl
  · intro place bracket items hat
    rw [Sexp.at?_substitute hat, Sexp.substitute_group]
    exact ⟨_, rfl, List.length_map _⟩
  · intro m' args' hbody' hargs' hperm
    -- the other macro has the same parameters, so that the body is a template for it too
    have hmem : ∀ name, name ∈ m.params ↔ name ∈ m'.params := by
      intro name
      rw [← Macro.names_zip hargs, ← Macro.names_zip hargs', (hperm.map Prod.fst).mem_iff]
    have hparams' : m'.params.Nodup := by
      rw [← Macro.names_zip hargs']
      exact (hperm.map Prod.fst).nodup_iff.mpr hnames
    have htemplate' : b.Template m'.params := by
      intro place name operands hat
      rw [← hmem]
      exact htemplate place name operands hat
    rw [Macro.expand_of_template (hbody'.trans hbody) hparams' htemplate' hargs',
      Bindings.get?_perm hnames hperm.symm]

/-- The body `(f x [if (x 1)] {k (if x)})` with the parameters `x` and `if`, called with `(fail if)` and
    `(+ 1 2)`: a parameter has the name of a special form, and the arguments have a parameter, a rejection and
    a sum of constants in them. -/
theorem templates_substitute_shadowed :
    let one : Sexp := .number (.ofNat 1)
    let rejection : Sexp := .group .round [.symbol "fail", .symbol "if"]
    let sum : Sexp := .group .round [.symbol "+", one, .number (.ofNat 2)]
    let b : Sexp := .group .round [.symbol "f", .symbol "x",
      .group .square [.symbol "if", .group .round [.symbol "x", one]],
      .group .curly [.symbol "k", .group .round [.symbol "if", .symbol "x"]]]
    let m : Macro := ⟨"m", ["x", "if"], [b]⟩
    let swapped : Macro := ⟨"m", ["if", "x"], [b]⟩
    m.params.Nodup ∧ b.Template m.params
      ∧ m.expand [rejection, sum] = .ok (.group .round [.symbol "f", rejection,
          .group .square [sum, .group .round [rejection, one]],
          .group .curly [.symbol "k", .group .round [sum, rejection]]])
      ∧ swapped.expand [sum, rejection] = m.expand [rejection, sum] := by
  intro one rejection sum b m swapped
  have hparams : m.params.Nodup := by decide
  have htemplate : b.Template m.params := by
    simp [b, one, m, Sexp.ruledNames, Sexp.foldingOperators]
  obtain ⟨expanded, hexpand, hsubstitute, _, _, _, hperm⟩ :=
    templates_substitute m b [rejection, sum] rfl hparams htemplate rfl
  have hvalue : expanded = .group .round [.symbol "f", rejection,
      .group .square [sum, .group .round [rejection, one]],
      .group .curly [.symbol "k", .group .round [sum, rejection]]] := hsubstitute
  refine ⟨hparams, htemplate, ?_, ?_⟩
  · rw [hexpand, hvalue]
  · rw [hexpand]
    exact hperm swapped [sum, rejection] rfl rfl (List.Perm.swap _ _ _)

end FormScript
