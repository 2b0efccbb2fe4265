import Mathlib.Data.List.Basic
import FormScript.Proofs.Lowering.Counters
import FormScript.Proofs.Lowering.Makeup

/-!
# What layouts demand

To render a layout is to lower expressions one after the other, to define macros, and to stop at a fault.
`Layout.demands` lists these demands in their order, and rendering gives a text exactly if they are granted
in turn (`Layout.render_ok_iff`); how the texts are put together has no part in it.

What a built-in form demands is known from its operands, once their number keeps the contract of the form
(`Builtin.follows_body`): it lowers its `subtokens` if the operands are `Shaped`, and otherwise it stops
at one of the wrong shape. It never stops for want of an operand.
-/

namespace FormScript

open Lowering

/-- What rendering a layout does at one place of it. -/
inductive Demand where
  | lower (e : Sexp)
  | define (m : Macro)
  | stop (fault : Fault)

/-- The demands are granted in turn, each in the state that those before it leave. -/
inductive Granted (lower : Sexp → Lowering String) : List Demand → State → State → Prop where
  | nil {s} : Granted lower [] s s
  | lower {e rest text s between after} :
    lower e s = (.ok text, between) → Granted lower rest between after →
    Granted lower (.lower e :: rest) s after
  | define {m rest s after} :
    Granted lower rest { s with registry := s.registry.define m } after →
    Granted lower (.define m :: rest) s after

theorem granted_append_iff {lower : Sexp → Lowering String} {first second : List Demand}
    {s after : State} : Granted lower (first ++ second) s after
      ↔ ∃ between, Granted lower first s between ∧ Granted lower second between after := by
  constructor
  · intro h
    induction first generalizing s with
    | nil => exact ⟨s, .nil, h⟩
    | cons demand rest ih =>
      cases h with
      | lower hlower hrest =>
        obtain ⟨between, hfirst, hsecond⟩ := ih hrest
        exact ⟨between, .lower hlower hfirst, hsecond⟩
      | define hrest =>
        obtain ⟨between, hfirst, hsecond⟩ := ih hrest
        exact ⟨between, .define hfirst, hsecond⟩
  · rintro ⟨between, hfirst, hsecond⟩
    induction hfirst with
    | nil => exact hsecond
    | lower hlower _ ih => exact .lower hlower (ih hsecond)
    | define _ ih => exact .define (ih hsecond)

/-- A stop is never granted. -/
theorem Granted.stop_not_mem {lower : Sexp → Lowering String} {demands : List Demand} {s after : State}
    (h : Granted lower demands s after) (fault : Fault) : Demand.stop fault ∉ demands := by
  induction h with
  | nil => exact List.not_mem_nil
  | lower _ _ ih => simpa using ih
  | define _ ih => simpa using ih

namespace Layout

/-- The demands of a layout, in the order of rendering. -/
def demands : Layout → List Demand
  | .text _ => []
  | .operand e => [.lower e]
  | .wrap _ part => part.demands
  | .join _ first second => first.demands ++ second.demands
  | .reject fault => [.stop fault]
  | .define m => [.define m]

/-- **A layout is rendered exactly if its demands are granted.** -/
theorem render_ok_iff {lower : Sexp → Lowering String} {L : Layout} {s after : State} :
    (∃ text, L.render lower s = (.ok text, after)) ↔ Granted lower L.demands s after := by
  induction L generalizing s after with
  | text t =>
    constructor
    · rintro ⟨text, hrun⟩
      cases hrun
      exact .nil
    · intro h
      cases h
      exact ⟨t, rfl⟩
  | operand e =>
    constructor
    · rintro ⟨text, hrun⟩
      exact .lower hrun .nil
    · intro h
      cases h with
      | lower hrun hrest =>
        cases hrest
        exact ⟨_, hrun⟩
  | wrap how part ih =>
    rw [demands, ← ih]
    constructor
    · rintro ⟨text, hrun⟩
      obtain ⟨t, between, hpart, hrest⟩ := ok_of_bind hrun
      cases hrest
      exact ⟨t, hpart⟩
    · rintro ⟨t, hpart⟩
      exact ⟨how.apply t, bind_of_ok hpart⟩
  | join how first second ihfirst ihsecond =>
    rw [demands, granted_append_iff]
    simp only [← ihfirst, ← ihsecond]
    constructor
    · rintro ⟨text, hrun⟩
      obtain ⟨t, between, hfirst, hrest⟩ := ok_of_bind hrun
      obtain ⟨u, after', hsecond, hlast⟩ := ok_of_bind hrest
      cases hlast
      exact ⟨between, ⟨t, hfirst⟩, ⟨u, hsecond⟩⟩
    · rintro ⟨between, ⟨t, hfirst⟩, ⟨u, hsecond⟩⟩
      exact ⟨how.apply t u, (bind_of_ok hfirst).trans (bind_of_ok hsecond)⟩
  | reject fault =>
    constructor
    · rintro ⟨text, hrun⟩
      cases hrun
    · intro h
      cases h
  | define m =>
    constructor
    · rintro ⟨text, hrun⟩
      cases hrun
      exact .define .nil
    · intro h
      cases h with
      | define hrest =>
        cases hrest
        exact ⟨"", rfl⟩

/-! ## Putting layouts together -/

@[simp] theorem demands_text (s : String) : (text s).demands = [] := rfl

@[simp] theorem demands_operand (e : Sexp) : (operand e).demands = [.lower e] := rfl

@[simp] theorem demands_wrap (how : Wrap) (part : Layout) : (wrap how part).demands = part.demands := rfl

@[simp] theorem demands_join (how : Joint) (first second : Layout) :
    (join how first second).demands = first.demands ++ second.demands := rfl

@[simp] theorem demands_reject (fault : Fault) : (reject fault).demands = [.stop fault] := rfl

@[simp] theorem demands_concat (parts : List Layout) :
    (concat parts).demands = parts.flatMap demands := by
  fun_induction concat parts with
  | case1 => rfl
  | case2 part => simp
  | case3 part next rest ih => rw [demands_join, ih, List.flatMap_cons (x := part)]

@[simp] theorem demands_separated (separator : String) (parts : List Layout) :
    (separated separator parts).demands = parts.flatMap demands := by
  fun_induction separated separator parts with
  | case1 => rfl
  | case2 part => simp
  | case3 part next rest ih =>
    rw [demands_join, demands_join, demands_text, List.nil_append, ih, List.flatMap_cons (x := part)]

/-- Parts that have one operand each. -/
theorem demands_each {part : Sexp → Layout} (h : ∀ e, (part e).demands = [.lower e]) (es : List Sexp) :
    (es.map part).flatMap demands = es.map .lower := by
  rw [List.flatMap_map, List.map_eq_flatMap, funext h]

@[simp] theorem demands_operands (separator : String) (es : List Sexp) :
    (operands separator es).demands = es.map .lower := by
  rw [operands, demands_separated]
  exact demands_each demands_operand es

@[simp] theorem demands_parens (part : Layout) : (parens part).demands = part.demands := by
  simp [parens]

@[simp] theorem demands_brackets (part : Layout) : (brackets part).demands = part.demands := by
  simp [brackets]

@[simp] theorem demands_braces (part : Layout) : (braces part).demands = part.demands := by
  simp [braces]

@[simp] theorem demands_statements (es : List Sexp) : (statements es).demands = es.map .lower := by
  induction es with
  | nil => rfl
  | cons e es ih => simp [statements, ih]

@[simp] theorem demands_functionBody (es : List Sexp) :
    (functionBody es).demands = es.map .lower := by
  fun_induction functionBody es with
  | case1 => rfl
  | case2 e => rfl
  | case3 e next rest ih =>
    rw [demands_join, ih, demands_operand]
    rfl

@[simp] theorem demands_functionOf (params : String) (body : Layout) :
    (functionOf params body).demands = body.demands := by
  simp [functionOf]

end Layout

/-! ## Numbers of operands -/

namespace Arity

/-- The number of operands keeps the contract. -/
def Met (a : Arity) (n : Nat) : Prop :=
  a.min ≤ n ∧ (∀ max ∈ a.max, n ≤ max) ∧ (a.even = true → n % 2 = 0)

theorem violation?_eq_none_iff {a : Arity} {n : Nat} : a.violation? n = none ↔ a.Met n := by
  obtain ⟨min, max, even⟩ := a
  unfold violation? Met
  cases max with
  | none => grind
  | some max =>
    simp only [Option.mem_some, forall_eq', Option.any_some, decide_eq_true_eq, Option.some.injEq]
    grind

@[simp] theorem met_exactly {k n : Nat} : (exactly k).Met n ↔ n = k := by
  simp [Met, exactly]
  omega

@[simp] theorem met_between {min max n : Nat} : (between min max).Met n ↔ min ≤ n ∧ n ≤ max := by
  simp [Met, between]

@[simp] theorem met_atLeast {min n : Nat} : (atLeast min).Met n ↔ min ≤ n := by
  simp [Met, atLeast]

@[simp] theorem met_evenAtLeast {min n : Nat} : (evenAtLeast min).Met n ↔ min ≤ n ∧ n % 2 = 0 := by
  simp [Met, evenAtLeast]

section Operands

variable {items : List Sexp} {min : Nat}

theorem Met.exists_cons (h : (atLeast (min + 1)).Met items.length) :
    ∃ first rest, items = first :: rest := by
  have hmin := met_atLeast.mp h
  exact List.exists_cons_of_length_pos (by omega)

theorem Met.exists_cons_cons (h : (atLeast (min + 2)).Met items.length) :
    ∃ first second rest, items = first :: second :: rest := by
  have hmin := met_atLeast.mp h
  rcases items with _ | ⟨first, _ | ⟨second, rest⟩⟩
  · simp only [List.length_nil] at hmin
    omega
  · simp only [List.length_cons, List.length_nil] at hmin
    omega
  · exact ⟨first, second, rest, rfl⟩

theorem Met.two_or_three (h : (between 2 3).Met items.length) :
    (∃ e f, items = [e, f]) ∨ ∃ e f g, items = [e, f, g] := by
  obtain ⟨hmin, hmax⟩ := met_between.mp h
  rcases Nat.lt_or_eq_of_le hmin with hmore | htwo
  · exact .inr (List.length_eq_three.mp (by omega))
  · exact .inl (List.length_eq_two.mp htwo.symm)

theorem Met.three_or_four (h : (between 3 4).Met items.length) :
    (∃ e f g, items = [e, f, g]) ∨ ∃ e f g last, items = [e, f, g, last] := by
  obtain ⟨hmin, hmax⟩ := met_between.mp h
  rcases items with _ | ⟨e, rest⟩
  · simp only [List.length_nil] at hmin
    omega
  · simp only [List.length_cons] at hmin hmax
    have hrest : (between 2 3).Met rest.length := met_between.mpr ⟨by omega, by omega⟩
    rcases hrest.two_or_three with ⟨f, g, rfl⟩ | ⟨f, g, last, rfl⟩
    · exact .inl ⟨e, f, g, rfl⟩
    · exact .inr ⟨e, f, g, last, rfl⟩

end Operands

end Arity

/-! ## Shapes of operands -/

namespace Sexp

/-- The expression can be the key of a member of an object. -/
def IsKey (e : Sexp) : Prop := e.isSymbol ∨ e.isString ∨ e.isNumber

/-- The expression is a list of parameters. -/
def IsParameterList (e : Sexp) : Prop := ∃ names : List String, e = .group .round (names.map .symbol)

/-- The expression is a list of arguments in a chain of calls. -/
def IsArgumentList (e : Sexp) : Prop := ∃ args, e = .group .round args ∨ e = .group .square args

/-- The expression is the name of a function or a function written on the spot. -/
def IsFunction (e : Sexp) : Prop :=
  e.isSymbol ∨ ∃ rest, e = .group .round (.symbol "fun" :: rest) ∨ e = .group .round (.symbol "lam" :: rest)

/-- The expression is a step of a member path: a name, a method call, a key or an index. -/
def IsMember (e : Sexp) : Prop :=
  e.isSymbol ∨ e.isString ∨ e.isNumber ∨ (∃ name args, e = .group .round (.symbol name :: args))
    ∨ ∃ key, e = .group .square [key]

/-- What is lowered of a step of a member path. -/
def memberOperands : Sexp → List Sexp
  | .symbol _ => []
  | .group .round items => items.tail
  | .group .square items => items
  | e => [e]

end Sexp

namespace Builtin

/-- The operands are of the shapes that the form requires. -/
def Shaped (form : Builtin) (items : List Sexp) : Prop :=
  match form with
  | .objectOf => ∀ pair ∈ Forms.pairs items, pair.1.IsKey
  | .function => ∀ e ∈ items.head?, e.IsParameterList
  | .chain => ∀ e ∈ items.tail, e.IsArgumentList
  | .passThrough => ∀ e ∈ items.tail, e.IsFunction
  | .declare => ∀ pair ∈ Forms.pairs items, pair.1.isSymbol
  | .member => ∀ e ∈ items.tail, e.IsMember
  | .construct => ∀ e ∈ items.head?, e.isSymbol
  | .instanceTest => ∀ e ∈ items.tail, e.isSymbol
  | .skip => ∀ e ∈ items, e.isSymbol
  | .leave => ∀ e ∈ items, e.isSymbol
  | _ => True

/-- The expressions that the form lowers, in this order, if its operands are of the right shapes. -/
def subtokens (form : Builtin) (items : List Sexp) : List Sexp :=
  match form with
  | .words => []
  | .quotation => []
  | .nothing => []
  | .skip => []
  | .leave => []
  | .function => items.tail
  | .construct => items.tail
  | .chain => items.take 1 ++ items.tail.flatMap fun e => e.elements?.getD []
  | .member => items.take 1 ++ items.tail.flatMap Sexp.memberOperands
  | _ => items

end Builtin

/-- The demands are those of operands with the right shapes or with wrong ones: in the first case to lower
    the expressions `es`, in the other to stop at a shape. -/
structure Follows (demands : List Demand) (shaped : Prop) (es : List Sexp) : Prop where
  lowers : shaped → demands = es.map .lower
  stops : ¬shaped → ∃ problem, .stop (.shape problem) ∈ demands
  shapes : ∀ fault, .stop fault ∈ demands → ∃ problem, fault = .shape problem

namespace Follows

variable {demands rest : List Demand} {shaped shaped' : Prop} {es fs : List Sexp}

/-- Demands that are to lower expressions, whatever their shapes. -/
theorem of_eq (h : demands = es.map .lower) : Follows demands True es where
  lowers := fun _ => h
  stops := fun hno => absurd trivial hno
  shapes := by
    subst h
    simp

/-- A choice by the shape. -/
theorem of_cases (hright : shaped → demands = es.map .lower)
    (hwrong : ¬shaped → ∃ problem, demands = [.stop (.shape problem)]) : Follows demands shaped es where
  lowers := hright
  stops := by
    intro hno
    obtain ⟨problem, rfl⟩ := hwrong hno
    exact ⟨problem, List.mem_singleton_self _⟩
  shapes := by
    intro fault hfault
    by_cases hshaped : shaped
    · simp [hright hshaped] at hfault
    · obtain ⟨problem, rfl⟩ := hwrong hshaped
      cases List.mem_singleton.mp hfault
      exact ⟨problem, rfl⟩

theorem append (h : Follows demands shaped es) (h' : Follows rest shaped' fs) :
    Follows (demands ++ rest) (shaped ∧ shaped') (es ++ fs) where
  lowers := by
    rintro ⟨hshaped, hshaped'⟩
    rw [h.lowers hshaped, h'.lowers hshaped', List.map_append]
  stops := by
    intro hno
    by_cases hshaped : shaped
    · obtain ⟨problem, hproblem⟩ := h'.stops fun hshaped' => hno ⟨hshaped, hshaped'⟩
      exact ⟨problem, List.mem_append_right _ hproblem⟩
    · obtain ⟨problem, hproblem⟩ := h.stops hshaped
      exact ⟨problem, List.mem_append_left _ hproblem⟩
  shapes := by
    intro fault hfault
    rcases List.mem_append.mp hfault with hfault | hfault
    · exact h.shapes fault hfault
    · exact h'.shapes fault hfault

/-- Demands piece by piece. -/
theorem flatMap {α : Type} {xs : List α} {f : α → List Demand} {P : α → Prop} {g : α → List Sexp}
    (h : ∀ x ∈ xs, Follows (f x) (P x) (g x)) :
    Follows (xs.flatMap f) (∀ x ∈ xs, P x) (xs.flatMap g) := by
  induction xs with
  | nil =>
    have hnone : Follows [] True [] := of_eq rfl
    simpa using hnone
  | cons x xs ih =>
    obtain ⟨hx, hxs⟩ := List.forall_mem_cons.mp h
    simpa using hx.append (ih hxs)

theorem congr (h : Follows demands shaped es) (hiff : shaped' ↔ shaped) :
    Follows demands shaped' es := by
  rw [propext hiff]
  exact h

end Follows

/-! ## Forms -/

namespace Forms

open Layout

variable {items : List Sexp}

@[simp] theorem demands_calledOnTheSpot (body : Layout) :
    (calledOnTheSpot body).demands = body.demands := by
  simp [calledOnTheSpot]

@[simp] theorem demands_call (callee : Layout) (args : List Sexp) :
    (call callee args).demands = callee.demands ++ args.map .lower := by
  simp [call]

/-- An even number of expressions is what its pairs consist of. -/
theorem flatMap_pairs (h : items.length % 2 = 0) :
    ((pairs items).flatMap fun pair => [pair.1, pair.2]) = items := by
  fun_induction pairs items with
  | case1 a b rest ih =>
    have hrest : rest.length % 2 = 0 := by
      simp only [List.length_cons] at h
      omega
    rw [List.flatMap_cons, ih hrest]
    rfl
  | case2 items hshort =>
    rcases items with _ | ⟨a, _ | ⟨b, rest⟩⟩
    · rfl
    · simp at h
    · exact absurd rfl (hshort a b rest)

theorem follows_entry (key value : Sexp) :
    Follows (entry key value).demands key.IsKey [key, value] := by
  have hkey : (key.isSymbol || key.isString || key.isNumber) = true ↔ key.IsKey := by
    simp [Sexp.IsKey, or_assoc]
  unfold entry
  apply Follows.of_cases
  · intro hright
    rw [if_pos (hkey.mpr hright)]
    rfl
  · intro hwrong
    rw [if_neg fun h => hwrong (hkey.mp h)]
    exact ⟨_, rfl⟩

theorem follows_objectOf (heven : items.length % 2 = 0) :
    Follows (objectOf items).demands (∀ pair ∈ pairs items, pair.1.IsKey) items := by
  have hentries := Follows.flatMap fun pair (_ : pair ∈ pairs items) => follows_entry pair.1 pair.2
  rw [flatMap_pairs heven] at hentries
  simpa [objectOf, List.flatMap_map] using hentries

theorem demands_assignments (heven : items.length % 2 = 0) :
    (assignments items).demands = items.map .lower := by
  have hpieces := congrArg (List.map Demand.lower) (flatMap_pairs heven)
  rw [List.map_flatMap] at hpieces
  rw [assignments, demands_separated, List.flatMap_map, ← hpieces]
  rfl

theorem follows_declare (heven : items.length % 2 = 0) :
    Follows (declare items).demands (∀ pair ∈ pairs items, pair.1.isSymbol) items := by
  unfold declare
  apply Follows.of_cases
  · intro hright
    rw [if_pos (List.all_eq_true.mpr hright), ← demands_assignments heven]
    simp
  · intro hwrong
    rw [if_neg fun h => hwrong (List.all_eq_true.mp h)]
    exact ⟨_, rfl⟩

theorem parameterNames?_map_symbol (names : List String) :
    parameterNames? (names.map .symbol) = some names := by
  induction names with
  | nil => rfl
  | cons name names ih =>
    rw [List.map_cons, parameterNames?, ih]
    rfl

theorem eq_map_symbol_of_parameterNames? {params : List Sexp} {names : List String}
    (h : parameterNames? params = some names) : params = names.map .symbol := by
  induction params generalizing names with
  | nil =>
    cases h
    rfl
  | cons e rest ih =>
    cases e with
    | symbol name =>
      rw [parameterNames?] at h
      obtain ⟨others, hothers, rfl⟩ := Option.map_eq_some_iff.mp h
      rw [ih hothers]
      rfl
    | number | string | regex | group => cases h

theorem follows_function (params : Sexp) (body : List Sexp) :
    Follows (function (params :: body)).demands params.IsParameterList body := by
  apply Follows.of_cases
  · rintro ⟨names, rfl⟩
    simp [function, parameterNames?_map_symbol]
  · intro hwrong
    unfold function
    split
    · rename_i ps _ hitems
      cases hitems
      split
      · rename_i names hnames
        rw [eq_map_symbol_of_parameterNames? hnames] at hwrong
        exact absurd ⟨names, rfl⟩ hwrong
      · exact ⟨_, rfl⟩
    · exact ⟨_, rfl⟩
    · rename_i hitems
      cases hitems

theorem follows_chainGroup (e : Sexp) :
    Follows (chainGroup e).demands e.IsArgumentList (e.elements?.getD []) := by
  apply Follows.of_cases
  · rintro ⟨args, rfl | rfl⟩ <;> simp [chainGroup, Sexp.elements?]
  · intro hwrong
    unfold chainGroup
    split
    · exact absurd ⟨_, .inl rfl⟩ hwrong
    · exact absurd ⟨_, .inr rfl⟩ hwrong
    · exact ⟨_, rfl⟩

theorem follows_passedFunction (f : Sexp) :
    Follows (passedFunction f).demands f.IsFunction [f] := by
  apply Follows.of_cases
  · rintro (hsymbol | ⟨rest, rfl | rfl⟩)
    · cases f with
      | symbol name => rfl
      | number | string | regex | group => cases hsymbol
    · rfl
    · rfl
  · intro hwrong
    unfold passedFunction
    split
    · exact absurd (.inl rfl) hwrong
    · exact absurd (.inr ⟨_, .inl rfl⟩) hwrong
    · exact absurd (.inr ⟨_, .inr rfl⟩) hwrong
    · exact ⟨_, rfl⟩

theorem follows_memberStep (step : Sexp) :
    Follows (memberStep step).demands step.IsMember step.memberOperands := by
  apply Follows.of_cases
  · rintro (hsymbol | hstring | hnumber | ⟨name, args, rfl⟩ | ⟨key, rfl⟩)
    · cases step with
      | symbol name => rfl
      | number | string | regex | group => cases hsymbol
    · cases step with
      | string content => rfl
      | number | symbol | regex | group => cases hstring
    · cases step with
      | number x => rfl
      | string | symbol | regex | group => cases hnumber
    · simp [memberStep, Sexp.memberOperands]
    · rfl
  · intro hwrong
    unfold memberStep
    split
    · exact absurd (.inl rfl) hwrong
    · exact absurd (.inr (.inr (.inr (.inl ⟨_, _, rfl⟩)))) hwrong
    · exact ⟨_, rfl⟩
    · exact absurd (.inr (.inl rfl)) hwrong
    · exact absurd (.inr (.inr (.inl rfl))) hwrong
    · exact absurd (.inr (.inr (.inr (.inr ⟨_, rfl⟩)))) hwrong
    · exact ⟨_, rfl⟩

/-- One operand that is lowered, and steps after it. -/
theorem follows_steps {first : Sexp} {steps : List Sexp} {layout : Sexp → Layout} {P : Sexp → Prop}
    {es : Sexp → List Sexp} (h : ∀ e, Follows (layout e).demands (P e) (es e)) :
    Follows (parens (concat (.operand first :: steps.map layout))).demands (∀ e ∈ steps, P e)
      (first :: steps.flatMap es) := by
  have hfirst : Follows [.lower first] True [first] := Follows.of_eq rfl
  have hsteps := Follows.flatMap fun e (_ : e ∈ steps) => h e
  simpa [List.flatMap_map] using hfirst.append hsteps

theorem demands_passThrough (value : Sexp) (functions : List Sexp) :
    (passThrough (value :: functions)).demands
      = .lower value :: functions.flatMap fun f => (passedFunction f).demands := by
  have hfold : ∀ inner : Layout,
      (functions.foldl (fun inner f => parens (.join .behind inner (passedFunction f))) inner).demands
        = inner.demands ++ functions.flatMap fun f => (passedFunction f).demands := by
    induction functions with
    | nil => simp
    | cons f rest ih =>
      intro inner
      rw [List.foldl_cons, ih, List.flatMap_cons]
      simp
  rw [passThrough, hfold]
  simp

theorem follows_passThrough (value : Sexp) (functions : List Sexp) :
    Follows (passThrough (value :: functions)).demands (∀ e ∈ functions, e.IsFunction)
      (value :: functions) := by
  have hvalue : Follows [.lower value] True [value] := Follows.of_eq rfl
  have hfunctions := Follows.flatMap fun e (_ : e ∈ functions) => follows_passedFunction e
  rw [demands_passThrough]
  simpa using hvalue.append hfunctions

theorem follows_construct (cls : Sexp) (args : List Sexp) :
    Follows (construct (cls :: args)).demands cls.isSymbol args := by
  apply Follows.of_cases
  · intro hright
    cases cls with
    | symbol name => simp [construct]
    | number | string | regex | group => cases hright
  · intro hwrong
    cases cls with
    | symbol name => exact absurd rfl hwrong
    | number | string | regex | group => exact ⟨_, rfl⟩

theorem follows_instanceTest (value cls : Sexp) :
    Follows (instanceTest [value, cls]).demands cls.isSymbol [value, cls] := by
  apply Follows.of_cases
  · intro hright
    rw [instanceTest, if_pos hright]
    rfl
  · intro hwrong
    rw [instanceTest, if_neg hwrong]
    exact ⟨_, rfl⟩

theorem follows_jump (form : Builtin) (h : items.length ≤ 1) :
    Follows (jump form items).demands (∀ e ∈ items, e.isSymbol) [] := by
  rcases items with _ | ⟨label, _ | ⟨extra, rest⟩⟩
  · have hnone : Follows [] True [] := Follows.of_eq rfl
    simpa [jump] using hnone
  · apply Follows.of_cases
    · intro hright
      cases label with
      | symbol name => rfl
      | number | string | regex | group => simp [Sexp.isSymbol, Sexp.symbol?] at hright
    · intro hwrong
      cases label with
      | symbol name => simp [Sexp.isSymbol, Sexp.symbol?] at hwrong
      | number | string | regex | group => exact ⟨_, rfl⟩
  · simp at h

theorem demands_indices (keys : List Sexp) : (indices keys).demands = keys.map .lower := by
  rw [indices, demands_concat]
  exact demands_each (fun key => demands_brackets _) keys

theorem demands_store {target : Sexp} {keys : List Sexp} (h : keys ≠ []) :
    (store (target :: keys)).demands = (target :: keys).map .lower := by
  have hkeys := congrArg (List.map Demand.lower) (List.dropLast_concat_getLast h)
  rw [List.map_append] at hkeys
  rw [List.map_cons, ← hkeys]
  simp [store, List.getLast?_eq_some_getLast h, demands_indices]

theorem demands_branchesFrom (keyword : String) (items : List Sexp) :
    (branchesFrom keyword items).flatMap demands = items.map .lower := by
  fun_induction branchesFrom keyword items with
  | case1 keyword condition body rest ih => simp [ih]
  | case2 keyword body => simp
  | case3 => rfl

theorem demands_clauses (items : List Sexp) : (clauses items).flatMap demands = items.map .lower := by
  fun_induction clauses items with
  | case1 value body rest ih => simp [ih]
  | case2 body => simp
  | case3 => rfl

theorem demands_operation (op : Operator) (first : Sexp) (rest : List Sexp) :
    (operation op (first :: rest)).demands = (first :: rest).map .lower := by
  have hrest := demands_each
    (fun e => demands_wrap (.operator op.spelling) (.operand e)) rest
  simp only [operation, demands_parens, demands_concat, List.flatMap_cons, hrest]
  rfl

theorem demands_exclusiveOr (items : List Sexp) :
    (exclusiveOr items).demands = items.map .lower := by
  rw [exclusiveOr, demands_parens, demands_separated]
  exact demands_each (fun e => demands_parens _) items

end Forms

open Layout Forms

/-- **What a built-in form demands**, once the number of its operands keeps its contract. -/
theorem Builtin.follows_body {form : Builtin} (hform : form ≠ .macroDefinition) (label : String)
    {items : List Sexp} (hmet : form.arity.Met items.length) :
    Follows (form.body label items).demands (form.Shaped items) (form.subtokens items) := by
  cases form with
  | macroDefinition => exact absurd rfl hform
  -- the forms that require shapes
  | objectOf => exact follows_objectOf (Arity.met_evenAtLeast.mp hmet).2
  | declare => exact follows_declare (Arity.met_evenAtLeast.mp hmet).2
  | skip => exact follows_jump .skip (Arity.met_between.mp hmet).2
  | leave => exact follows_jump .leave (Arity.met_between.mp hmet).2
  | function =>
    obtain ⟨params, body, rfl⟩ := hmet.exists_cons
    exact (follows_function params body).congr (by simp [Shaped])
  | construct =>
    obtain ⟨cls, args, rfl⟩ := hmet.exists_cons
    exact (follows_construct cls args).congr (by simp [Shaped])
  | chain =>
    obtain ⟨f, groups, rfl⟩ := hmet.exists_cons
    exact follows_steps follows_chainGroup
  | member =>
    obtain ⟨target, steps, rfl⟩ := hmet.exists_cons
    exact follows_steps follows_memberStep
  | passThrough =>
    obtain ⟨value, functions, rfl⟩ := hmet.exists_cons
    exact follows_passThrough value functions
  | instanceTest =>
    obtain ⟨value, cls, rfl⟩ := List.length_eq_two.mp (Arity.met_exactly.mp hmet)
    exact (follows_instanceTest value cls).congr (by simp [Shaped])
  -- the forms that lower nothing
  | words | quotation | nothing => exact .of_eq rfl
  -- the forms that lower any operands
  | arrayOf => exact .of_eq (by simp [body, Forms.arrayOf, subtokens])
  | unary => exact .of_eq (by simp [body, Forms.unary, subtokens])
  | closure => exact .of_eq (by simp [body, Forms.closure, subtokens])
  | block => exact .of_eq (by simp [body, Forms.block, subtokens])
  | raiseError => exact .of_eq (by simp [body, raiseNew, subtokens])
  | raiseTypeError => exact .of_eq (by simp [body, raiseNew, subtokens])
  | exclusiveOr => exact .of_eq (demands_exclusiveOr items)
  | branches => exact .of_eq (by simp [body, Forms.branches, demands_branchesFrom, subtokens])
  | assign =>
    refine .of_eq ?_
    rw [body, Forms.assign, demands_parens]
    exact demands_assignments (Arity.met_evenAtLeast.mp hmet).2
  | index =>
    obtain ⟨target, keys, rfl⟩ := hmet.exists_cons
    exact .of_eq (by simp [body, Forms.index, demands_indices, subtokens])
  | cases =>
    obtain ⟨subject, items, rfl⟩ := hmet.exists_cons
    exact .of_eq (by simp [body, Forms.cases, demands_clauses, subtokens])
  | operator op =>
    obtain ⟨first, rest, rfl⟩ := hmet.exists_cons
    exact .of_eq (demands_operation op first rest)
  | store =>
    obtain ⟨target, key, keys, rfl⟩ := hmet.exists_cons_cons
    exact .of_eq (demands_store (List.cons_ne_nil key keys))
  -- the forms with a fixed number of operands
  | giveBack | argument | raise | negation | complement =>
    obtain ⟨e, rfl⟩ := List.length_eq_one_iff.mp (Arity.met_exactly.mp hmet)
    exact .of_eq rfl
  | giveBackIf | assertion =>
    obtain ⟨e, f, rfl⟩ := List.length_eq_two.mp (Arity.met_exactly.mp hmet)
    exact .of_eq rfl
  | conditional | iteration | attempt =>
    rcases hmet.two_or_three with ⟨e, f, rfl⟩ | ⟨e, f, g, rfl⟩
    · exact .of_eq rfl
    · exact .of_eq rfl
  | loop =>
    rcases hmet.three_or_four with ⟨e, f, g, rfl⟩ | ⟨e, f, g, last, rfl⟩
    · exact .of_eq rfl
    · exact .of_eq rfl

end FormScript
