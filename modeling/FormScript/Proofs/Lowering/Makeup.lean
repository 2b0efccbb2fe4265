import FormScript.Lowering.Form
import FormScript.Proofs.Macro.Expansion
import FormScript.Proofs.Macro.Registry

/-!
# What layouts are made of

The operands in the layout of a form come out of the form: they are its elements, or elements of these.
So is the body of a macro that it defines, and the fault that it may be rejected with lies in the form
itself. `Layout.Consists` says this for a property of expressions that passes from a group to its elements
(`Hereditary`), and `Sexp.consists_layout` says that it holds of the layout of every expression that has
the property. There is an equation for each way of putting layouts together, and a lemma for each form
that does more than that with its operands.
-/

namespace FormScript

/-- The property passes from a group to its elements. -/
def Sexp.Hereditary (P : Sexp → Prop) : Prop := ∀ b items, P (.group b items) → ∀ e ∈ items, P e

/-- The macro is well formed, and what it was defined with has the property: the keyword, the name and
    the body. -/
structure Macro.DefinedFrom (P : Sexp → Prop) (m : Macro) : Prop where
  keyword : P (.symbol Builtin.macroDefinition.name)
  name : P (.symbol m.name)
  body : ∀ e ∈ m.body, P e
  wellFormed : m.WellFormed

/-- The fault is found by looking at one form: neither macros nor limits have to do with it. -/
def Fault.isLocal : Fault → Bool
  | .shape (.nestedTooDeeply _) => false
  | .expansion _ _ => false
  | .expandedTooDeeply _ => false
  | _ => true

namespace Layout

/-- The operands have the property, macros are defined from expressions with it, and faults are local. -/
def Consists (P : Sexp → Prop) : Layout → Prop
  | .text _ => True
  | .operand e => P e
  | .wrap _ part => part.Consists P
  | .join _ first second => first.Consists P ∧ second.Consists P
  | .reject fault => fault.isLocal = true
  | .define m => m.DefinedFrom P

variable {P : Sexp → Prop}

@[simp] theorem consists_text (s : String) : (text s).Consists P := trivial

@[simp] theorem consists_operand {e : Sexp} : (operand e).Consists P ↔ P e := Iff.rfl

@[simp] theorem consists_wrap {how : Wrap} {part : Layout} :
    (wrap how part).Consists P ↔ part.Consists P := Iff.rfl

@[simp] theorem consists_join {how : Joint} {first second : Layout} :
    (join how first second).Consists P ↔ first.Consists P ∧ second.Consists P := Iff.rfl

@[simp] theorem consists_missing (form : Builtin) : (missing form).Consists P := rfl

theorem consists_reject {fault : Fault} (h : fault.isLocal = true) : (reject fault).Consists P := h

@[simp] theorem consists_concat {parts : List Layout} :
    (concat parts).Consists P ↔ ∀ part ∈ parts, part.Consists P := by
  fun_induction concat parts with
  | case1 => simp
  | case2 part => simp
  | case3 part next rest ih => rw [consists_join, ih, List.forall_mem_cons (a := part)]

@[simp] theorem consists_separated {separator : String} {parts : List Layout} :
    (separated separator parts).Consists P ↔ ∀ part ∈ parts, part.Consists P := by
  fun_induction separated separator parts with
  | case1 => simp
  | case2 part => simp
  | case3 part next rest ih =>
    rw [consists_join, consists_join, ih, List.forall_mem_cons (a := part)]
    simp

@[simp] theorem consists_operands {separator : String} {es : List Sexp} :
    (operands separator es).Consists P ↔ ∀ e ∈ es, P e := by
  simp [operands]

@[simp] theorem consists_parens {part : Layout} : (parens part).Consists P ↔ part.Consists P := by
  simp [parens]

@[simp] theorem consists_brackets {part : Layout} : (brackets part).Consists P ↔ part.Consists P := by
  simp [brackets]

@[simp] theorem consists_braces {part : Layout} : (braces part).Consists P ↔ part.Consists P := by
  simp [braces]

@[simp] theorem consists_statements {es : List Sexp} :
    (statements es).Consists P ↔ ∀ e ∈ es, P e := by
  induction es with
  | nil => simp [statements]
  | cons e es ih => simp [statements, ih]

@[simp] theorem consists_functionBody {es : List Sexp} :
    (functionBody es).Consists P ↔ ∀ e ∈ es, P e := by
  fun_induction functionBody es with
  | case1 => simp
  | case2 e => simp
  | case3 e next rest ih => rw [consists_join, ih, consists_operand, List.forall_mem_cons (a := e)]

@[simp] theorem consists_functionOf {params : String} {body : Layout} :
    (functionOf params body).Consists P ↔ body.Consists P := by
  simp [functionOf]

end Layout

/-! ## Forms -/

namespace Forms

open Layout

variable {P : Sexp → Prop} {items : List Sexp}

@[simp] theorem consists_calledOnTheSpot {body : Layout} :
    (calledOnTheSpot body).Consists P ↔ body.Consists P := by
  simp [calledOnTheSpot]

@[simp] theorem consists_call {callee : Layout} {args : List Sexp} :
    (call callee args).Consists P ↔ callee.Consists P ∧ ∀ e ∈ args, P e := by
  simp [call]

theorem consists_function (h : ∀ e ∈ items, P e) : (function items).Consists P := by
  unfold function
  split
  · split
    · simp only [consists_functionOf, consists_functionBody]
      exact fun e he => h e (List.mem_cons_of_mem _ he)
    · exact consists_reject rfl
  · exact consists_reject rfl
  · exact consists_missing _

/-- An argument list of a chain is an element of the form, and the arguments are elements of the list. -/
theorem consists_chain (hP : Sexp.Hereditary P) (h : ∀ e ∈ items, P e) : (chain items).Consists P := by
  have hgroup : ∀ e, P e → (chainGroup e).Consists P := by
    intro e he
    unfold chainGroup
    split
    · simpa using hP _ _ he
    · simpa using hP _ _ he
    · exact consists_reject rfl
  unfold chain
  split
  · rename_i f groups
    obtain ⟨hf, hgroups⟩ := List.forall_mem_cons.mp h
    simp only [consists_parens, consists_concat, List.forall_mem_cons, consists_operand,
      List.forall_mem_map]
    exact ⟨hf, fun e he => hgroup e (hgroups e he)⟩
  · exact consists_missing _

theorem consists_passedFunction {f : Sexp} (h : P f) : (passedFunction f).Consists P := by
  unfold passedFunction
  split
  · exact h
  · exact h
  · exact h
  · exact consists_reject rfl

theorem consists_passThrough (h : ∀ e ∈ items, P e) : (passThrough items).Consists P := by
  unfold passThrough
  split
  · rename_i value functions
    obtain ⟨hvalue, hfunctions⟩ := List.forall_mem_cons.mp h
    have hinner : (parens (.operand value)).Consists P := by simpa using hvalue
    generalize parens (.operand value) = inner at hinner
    -- what is passed through one more function is again made of the operands
    induction functions generalizing inner with
    | nil => exact hinner
    | cons f rest ih =>
      obtain ⟨hf, hrest⟩ := List.forall_mem_cons.mp hfunctions
      refine ih (List.forall_mem_cons.mpr ⟨hvalue, hrest⟩) hrest _ ?_
      simpa using ⟨hinner, consists_passedFunction hf⟩
  · exact consists_missing _

/-- What stands in pairs is among the items. -/
theorem forall_pairs (h : ∀ e ∈ items, P e) : ∀ pair ∈ pairs items, P pair.1 ∧ P pair.2 := by
  fun_induction pairs items with
  | case1 a b rest ih =>
    simp only [List.forall_mem_cons] at h
    exact List.forall_mem_cons.mpr ⟨⟨h.1, h.2.1⟩, ih h.2.2⟩
  | case2 => simp

theorem consists_objectOf (h : ∀ e ∈ items, P e) : (objectOf items).Consists P := by
  simp only [objectOf, consists_parens, consists_braces, consists_separated, List.forall_mem_map]
  intro pair hpair
  obtain ⟨hkey, hvalue⟩ := forall_pairs h pair hpair
  unfold entry
  split
  · simpa using ⟨hkey, hvalue⟩
  · exact consists_reject rfl

theorem consists_assignments (h : ∀ e ∈ items, P e) : (assignments items).Consists P := by
  simp only [assignments, consists_separated, List.forall_mem_map]
  intro pair hpair
  simpa using forall_pairs h pair hpair

theorem consists_declare (h : ∀ e ∈ items, P e) : (declare items).Consists P := by
  unfold declare
  split
  · simpa using consists_assignments h
  · exact consists_reject rfl

@[simp] theorem consists_indices {keys : List Sexp} :
    (indices keys).Consists P ↔ ∀ e ∈ keys, P e := by
  simp [indices]

theorem consists_store (h : ∀ e ∈ items, P e) : (store items).Consists P := by
  unfold store
  split
  · rename_i target keys
    obtain ⟨htarget, hkeys⟩ := List.forall_mem_cons.mp h
    split
    · rename_i value hvalue
      have hlast : P value := hkeys value (List.mem_of_getLast? hvalue)
      have hothers : ∀ e ∈ keys.dropLast, P e := fun e he => hkeys e (List.dropLast_subset keys he)
      simpa using ⟨htarget, hothers, hlast⟩
    · exact consists_missing _
  · exact consists_missing _

/-- A step of a member path is lowered itself, or its arguments or its index are. -/
theorem consists_memberStep (hP : Sexp.Hereditary P) {step : Sexp} (h : P step) :
    (memberStep step).Consists P := by
  unfold memberStep
  split
  · exact consists_text _
  · have hitems := List.forall_mem_cons.mp (hP _ _ h)
    simpa using hitems.2
  · exact consists_reject rfl
  · simpa using h
  · simpa using h
  · simpa using hP _ _ h
  · exact consists_reject rfl

theorem consists_member (hP : Sexp.Hereditary P) (h : ∀ e ∈ items, P e) :
    (member items).Consists P := by
  unfold member
  split
  · obtain ⟨htarget, hsteps⟩ := List.forall_mem_cons.mp h
    simp only [consists_parens, consists_concat, List.forall_mem_cons, consists_operand,
      List.forall_mem_map]
    exact ⟨htarget, fun e he => consists_memberStep hP (hsteps e he)⟩
  · exact consists_missing _

theorem consists_construct (h : ∀ e ∈ items, P e) : (construct items).Consists P := by
  unfold construct
  split
  · simpa using (List.forall_mem_cons.mp h).2
  · exact consists_reject rfl
  · exact consists_missing _

theorem consists_instanceTest (h : ∀ e ∈ items, P e) : (instanceTest items).Consists P := by
  unfold instanceTest
  split
  · split
    · simpa using h
    · exact consists_reject rfl
  · exact consists_missing _

theorem consists_branchesFrom {keyword : String} (h : ∀ e ∈ items, P e) :
    ∀ part ∈ branchesFrom keyword items, part.Consists P := by
  fun_induction branchesFrom keyword items with
  | case1 keyword condition body rest ih =>
    simp only [List.forall_mem_cons] at h
    refine List.forall_mem_cons.mpr ⟨?_, ih h.2.2⟩
    simpa using ⟨h.1, h.2.1⟩
  | case2 keyword body => simpa using h
  | case3 => simp

theorem consists_clauses (h : ∀ e ∈ items, P e) : ∀ part ∈ clauses items, part.Consists P := by
  fun_induction clauses items with
  | case1 value body rest ih =>
    simp only [List.forall_mem_cons] at h
    refine List.forall_mem_cons.mpr ⟨?_, ih h.2.2⟩
    simpa using ⟨h.1, h.2.1⟩
  | case2 body => simpa using h
  | case3 => simp

theorem consists_cases (h : ∀ e ∈ items, P e) : (cases items).Consists P := by
  unfold cases
  split
  · obtain ⟨hsubject, hclauses⟩ := List.forall_mem_cons.mp h
    simpa using ⟨hsubject, consists_clauses hclauses⟩
  · exact consists_missing _

theorem consists_jump (form : Builtin) : (jump form items).Consists P := by
  unfold jump
  split
  · simp
  · simp
  · exact consists_reject rfl
  · exact consists_missing _

theorem consists_operation (op : Operator) (h : ∀ e ∈ items, P e) :
    (operation op items).Consists P := by
  unfold operation
  split
  · simpa using h
  · exact consists_missing _

/-- The parameters that are taken over are distinct: each was compared with those before it. -/
theorem parametersFrom_nodup {name : String} {names : List String} (h : names.Nodup)
    {params : List Sexp} {all : List String} (hall : parametersFrom name names params = .ok all) :
    all.Nodup := by
  fun_induction parametersFrom name names params with
  | case1 names =>
    cases hall
    exact List.nodup_reverse.mpr h
  | case2 => cases hall
  | case3 names parameter rest p hp hfresh ih => exact ih (List.nodup_cons.mpr ⟨hfresh, h⟩) hall
  | case4 => cases hall

/-- A macro is well formed from its definition on, and made of the operands of it. -/
theorem definedFrom_of_macroOf (hkeyword : P (.symbol Builtin.macroDefinition.name))
    (h : ∀ e ∈ items, P e) {m : Macro} (hm : macroOf items = .ok m) : m.DefinedFrom P := by
  unfold macroOf at hm
  split at hm
  · rename_i head params first rest
    simp only [List.forall_mem_cons] at h
    obtain ⟨hhead, _, hfirst, hrest⟩ := h
    cases head with
    | symbol name =>
      cases params with
      | group b ps =>
        cases b with
        | round =>
          obtain ⟨names, hnames, hm⟩ := Sexp.ok_of_bind hm
          cases hm
          exact
            { keyword := hkeyword
              name := hhead
              body := List.forall_mem_cons.mpr ⟨hfirst, hrest⟩
              wellFormed := ⟨List.cons_ne_nil _ _, parametersFrom_nodup List.nodup_nil hnames⟩ }
        | square => cases hm
        | curly => cases hm
      | _ => cases hm
    | _ => cases hm
  · cases hm

theorem consists_macroDefinition (hkeyword : P (.symbol Builtin.macroDefinition.name))
    (h : ∀ e ∈ items, P e) : (macroDefinition items).Consists P := by
  unfold macroDefinition
  split
  · rename_i m hm
    exact definedFrom_of_macroOf hkeyword h hm
  · exact consists_reject rfl

end Forms

/-! ## Expressions -/

open Layout Forms

theorem Builtin.name_of_ofName? {name : String} {form : Builtin} (h : Builtin.ofName? name = some form) :
    form.name = name := by
  unfold Builtin.ofName? at h
  have hname := List.find?_some h
  exact of_decide_eq_true hname

section Expressions

variable {P : Sexp → Prop} (hP : Sexp.Hereditary P)

include hP

/-- **Built-in forms put nothing into their layouts but their operands.** -/
theorem Builtin.consists_body {form : Builtin}
    (hkeyword : form = .macroDefinition → P (.symbol Builtin.macroDefinition.name)) (label : String)
    {items : List Sexp} (h : ∀ e ∈ items, P e) : (form.body label items).Consists P := by
  cases form with
  | words => exact consists_text _
  | arrayOf => simpa [body, Forms.arrayOf] using h
  | objectOf => exact consists_objectOf h
  | quotation => exact consists_text _
  | function => exact consists_function h
  | unary => simpa [body, Forms.unary] using h
  | closure => simpa [body, Forms.closure] using h
  | chain => exact consists_chain hP h
  | passThrough => exact consists_passThrough h
  | assign => simpa [body, Forms.assign] using consists_assignments h
  | declare => exact consists_declare h
  | store => exact consists_store h
  | member => exact consists_member hP h
  | construct => exact consists_construct h
  | instanceTest => exact consists_instanceTest h
  | branches => simpa [body, Forms.branches] using consists_branchesFrom h
  | cases => exact consists_cases h
  | skip => exact consists_jump .skip
  | leave => exact consists_jump .leave
  | block => simpa [body, Forms.block] using h
  | nothing => exact consists_text _
  | raiseError => simpa [body, raiseNew] using h
  | raiseTypeError => simpa [body, raiseNew] using h
  | exclusiveOr => simpa [body, Forms.exclusiveOr] using h
  | macroDefinition => exact consists_macroDefinition (hkeyword rfl) h
  | operator op => exact consists_operation op h
  -- the others take a fixed number of operands and lower each of them
  | giveBack | giveBackIf | argument | index | conditional | loop | iteration | attempt | raise
  | assertion | negation | complement =>
    simp only [body, Forms.giveBack.eq_def, Forms.giveBackIf.eq_def, Forms.argument.eq_def,
      Forms.index.eq_def, Forms.conditional.eq_def, Forms.loop.eq_def, Forms.iteration.eq_def,
      Forms.attempt.eq_def, Forms.raise.eq_def, Forms.assertion.eq_def, Forms.negation.eq_def,
      Forms.complement.eq_def]
    split <;> simp_all [loopAround, iterationOver, attemptThen]

theorem Builtin.consists_layout {form : Builtin}
    (hkeyword : form = .macroDefinition → P (.symbol Builtin.macroDefinition.name))
    {args : List Sexp} (h : ∀ e ∈ args, P e) : (form.layout args).Consists P := by
  have hitems : ∀ e ∈ (form.split args).2, P e := by
    unfold Builtin.split splitLabel
    split
    · split
      · split
        · exact fun e he => h e (List.mem_cons_of_mem _ he)
        · exact h
      · exact h
    · exact h
  unfold Builtin.layout
  dsimp only
  split
  · exact consists_reject rfl
  · exact Builtin.consists_body hP hkeyword _ hitems

/-- **The layout of an expression is made of its elements.** -/
theorem Sexp.consists_layout_of_elements {e : Sexp}
    (h : ∀ b items, e = .group b items → ∀ x ∈ items, P x) : e.layout.Consists P := by
  unfold Sexp.layout
  split
  · exact consists_text _
  · exact consists_text _
  · exact consists_text _
  · exact consists_text _
  · apply Builtin.consists_layout hP _ (h _ _ rfl)
    nofun
  · apply Builtin.consists_layout hP _ (h _ _ rfl)
    nofun
  · exact consists_reject rfl
  · rename_i head args
    obtain ⟨hhead, hargs⟩ := List.forall_mem_cons.mp (h _ _ rfl)
    split
    · rename_i name
      split
      · rename_i form hform
        refine Builtin.consists_layout hP ?_ hargs
        rintro rfl
        rw [Builtin.name_of_ofName? hform]
        exact hhead
      · simpa using hargs
    · simpa using ⟨hhead, hargs⟩
    · exact consists_reject rfl

/-- The layout of an expression is made of the expression. -/
theorem Sexp.consists_layout {e : Sexp} (h : P e) : e.layout.Consists P := by
  apply Sexp.consists_layout_of_elements hP
  rintro b items rfl
  exact hP b items h

end Expressions

end FormScript
