import Mathlib.Data.List.Forall2
import FormScript.Proofs.Lowering.Counters

/-!
# Layouts of expressions that look alike

A form looks at the kinds of its operands, at symbols, and at what an operand is printed as; it does not
look at a number or into a string. A relation between expressions that keeps these (`Lookalike`) is
therefore kept by layouts: of two related expressions the layouts are built alike, from related operands
(`Lookalike.layout`). There is a lemma for each way of putting layouts together and one for each form.

Definitions of macros are left out: they keep their operands as they are, and macros may look at them
later. As long as no macro is defined, related expressions are lowered alike, with the same text or the
same fault (`Lookalike.lowered`).
-/

namespace FormScript

/-- The same kind of expression, with the same symbol or with related elements. -/
inductive SameShape (r : Sexp → Sexp → Prop) : Sexp → Sexp → Prop where
  | number (x y : Number) : SameShape r (.number x) (.number y)
  | symbol (name : String) : SameShape r (.symbol name) (.symbol name)
  | string (s t : String) : SameShape r (.string s) (.string t)
  | regex (p f q g : String) : SameShape r (.regex p f) (.regex q g)
  | group (b : Bracket) {xs ys : List Sexp} : List.Forall₂ r xs ys →
      SameShape r (.group b xs) (.group b ys)

namespace SameShape

variable {r : Sexp → Sexp → Prop} {a b : Sexp} (h : SameShape r a b)

include h

theorem kind_eq : a.kind = b.kind := by
  cases h with
  | group b hitems => cases b <;> rfl
  | _ => rfl

theorem isSymbol_eq : a.isSymbol = b.isSymbol := by cases h <;> rfl

theorem isString_eq : a.isString = b.isString := by cases h <;> rfl

theorem isNumber_eq : a.isNumber = b.isNumber := by cases h <;> rfl

end SameShape

/-- Related expressions are printed alike and have the same shape, and the name of macro definitions is
    related to nothing. -/
structure Lookalike (r : Sexp → Sexp → Prop) : Prop where
  text_eq : ∀ {a b}, r a b → a.text = b.text
  shape : ∀ {a b}, r a b → SameShape r a b
  no_definition : ∀ {b}, ¬ r (.symbol Builtin.macroDefinition.name) b

/-- Related lists are printed alike. -/
theorem Lookalike.spaced_eq {r : Sexp → Sexp → Prop} (hr : Lookalike r) {xs ys : List Sexp}
    (h : List.Forall₂ r xs ys) : Sexp.spaced xs = Sexp.spaced ys := by
  have htexts : Sexp.texts xs = Sexp.texts ys := by
    induction h with
    | nil => rfl
    | cons hfirst _ ih => rw [Sexp.texts, Sexp.texts, hr.text_eq hfirst, ih]
  rw [Sexp.spaced, Sexp.spaced, htexts]

namespace Layout

/-- The layouts are built alike, from related operands. -/
def Corresponds (r : Sexp → Sexp → Prop) : Layout → Layout → Prop
  | .text s, .text t => s = t
  | .operand a, .operand b => r a b
  | .wrap how part, .wrap how' part' => how = how' ∧ part.Corresponds r part'
  | .join how first second, .join how' first' second' =>
    how = how' ∧ first.Corresponds r first' ∧ second.Corresponds r second'
  | .reject fault, .reject fault' => fault = fault'
  | _, _ => False

section Combining

variable {r : Sexp → Sexp → Prop}

theorem corresponds_text (s : String) : (text s).Corresponds r (text s) := rfl

theorem corresponds_operand {a b : Sexp} (h : r a b) : (operand a).Corresponds r (operand b) := h

theorem corresponds_reject (fault : Fault) : (reject fault).Corresponds r (reject fault) := rfl

theorem corresponds_missing (form : Builtin) : (missing form).Corresponds r (missing form) := rfl

theorem corresponds_concat {Ls Ms : List Layout} (h : List.Forall₂ (Corresponds r) Ls Ms) :
    (concat Ls).Corresponds r (concat Ms) := by
  induction h with
  | nil => exact corresponds_text ""
  | cons hfirst hrest ih =>
    cases hrest with
    | nil => exact hfirst
    | cons hsecond hrest => exact ⟨rfl, hfirst, ih⟩

theorem corresponds_separated (separator : String) {Ls Ms : List Layout}
    (h : List.Forall₂ (Corresponds r) Ls Ms) :
    (separated separator Ls).Corresponds r (separated separator Ms) := by
  induction h with
  | nil => exact corresponds_text ""
  | cons hfirst hrest ih =>
    cases hrest with
    | nil => exact hfirst
    | cons hsecond hrest => exact ⟨rfl, hfirst, rfl, corresponds_text separator, ih⟩

/-- Layouts made from related expressions one by one. -/
theorem corresponds_map {f g : Sexp → Layout} (hfg : ∀ a b, r a b → (f a).Corresponds r (g b))
    {es fs : List Sexp} (h : List.Forall₂ r es fs) :
    List.Forall₂ (Corresponds r) (es.map f) (fs.map g) := by
  rw [List.forall₂_map_left_iff, List.forall₂_map_right_iff]
  exact h.imp hfg

theorem corresponds_operands (separator : String) {es fs : List Sexp} (h : List.Forall₂ r es fs) :
    (operands separator es).Corresponds r (operands separator fs) :=
  corresponds_separated separator (corresponds_map (fun _ _ hab => hab) h)

variable {L M : Layout}

theorem corresponds_parens (h : L.Corresponds r M) : (parens L).Corresponds r (parens M) :=
  ⟨rfl, rfl, rfl, h, rfl⟩

theorem corresponds_brackets (h : L.Corresponds r M) : (brackets L).Corresponds r (brackets M) :=
  ⟨rfl, rfl, rfl, h, rfl⟩

theorem corresponds_braces (h : L.Corresponds r M) : (braces L).Corresponds r (braces M) :=
  ⟨rfl, rfl, rfl, h, rfl⟩

theorem corresponds_functionOf (params : String) (h : L.Corresponds r M) :
    (functionOf params L).Corresponds r (functionOf params M) :=
  corresponds_parens ⟨rfl, rfl, rfl, corresponds_parens (corresponds_text params), corresponds_braces h⟩

theorem corresponds_calledOnTheSpot (h : L.Corresponds r M) :
    (Forms.calledOnTheSpot L).Corresponds r (Forms.calledOnTheSpot M) :=
  ⟨rfl, corresponds_functionOf "" h, rfl⟩

theorem corresponds_statements {es fs : List Sexp} (h : List.Forall₂ r es fs) :
    (Layout.statements es).Corresponds r (Layout.statements fs) := by
  induction h with
  | nil => exact corresponds_text ""
  | cons hfirst _ ih => exact ⟨rfl, hfirst, ih⟩

theorem corresponds_functionBody {es fs : List Sexp} (h : List.Forall₂ r es fs) :
    (functionBody es).Corresponds r (functionBody fs) := by
  induction h with
  | nil => exact corresponds_text ""
  | cons hfirst hrest ih =>
    cases hrest with
    | nil => exact ⟨rfl, hfirst⟩
    | cons hsecond hrest => exact ⟨rfl, hfirst, ih⟩

end Combining

end Layout

namespace Forms

open Layout

variable {r : Sexp → Sexp → Prop} (hr : Lookalike r) {xs ys : List Sexp}

/-! ## Functions and calls -/

theorem corresponds_call {callee callee' : Layout} (hcallee : callee.Corresponds r callee')
    (h : List.Forall₂ r xs ys) : (call callee xs).Corresponds r (call callee' ys) :=
  corresponds_parens ⟨rfl, hcallee, corresponds_parens (corresponds_operands "," h)⟩

include hr in
theorem parameterNames?_eq (h : List.Forall₂ r xs ys) : parameterNames? xs = parameterNames? ys := by
  induction h with
  | nil => rfl
  | cons hfirst _ ih =>
    cases hr.shape hfirst with
    | symbol name => rw [parameterNames?, parameterNames?, ih]
    | _ => rfl

include hr in
theorem corresponds_function (h : List.Forall₂ r xs ys) :
    (function xs).Corresponds r (function ys) := by
  rcases h with _ | ⟨hfirst, hbody⟩
  · exact corresponds_missing _
  cases hr.shape hfirst with
  | group b hparams =>
    cases b with
    | round =>
      simp only [function, parameterNames?_eq hr hparams]
      split
      · exact corresponds_functionOf _ (corresponds_functionBody hbody)
      · exact corresponds_reject _
    | _ => exact corresponds_reject _
  | _ => exact corresponds_reject _

theorem corresponds_giveBack (h : List.Forall₂ r xs ys) :
    (giveBack xs).Corresponds r (giveBack ys) := by
  rcases h with _ | ⟨hvalue, _ | ⟨_, _⟩⟩
  · exact corresponds_missing _
  · exact corresponds_braces ⟨rfl, hvalue⟩
  · exact corresponds_missing _

theorem corresponds_giveBackIf (h : List.Forall₂ r xs ys) :
    (giveBackIf xs).Corresponds r (giveBackIf ys) := by
  rcases h with _ | ⟨hcondition, _ | ⟨hvalue, _ | ⟨_, _⟩⟩⟩
  · exact corresponds_missing _
  · exact corresponds_missing _
  · exact corresponds_braces ⟨rfl, rfl, rfl, corresponds_parens hcondition, rfl, hvalue⟩
  · exact corresponds_missing _

theorem corresponds_argument (h : List.Forall₂ r xs ys) :
    (argument xs).Corresponds r (argument ys) := by
  rcases h with _ | ⟨hindex, _ | ⟨_, _⟩⟩
  · exact corresponds_missing _
  · exact corresponds_parens ⟨rfl, hindex⟩
  · exact corresponds_missing _

include hr in
theorem corresponds_chainGroup {a b : Sexp} (h : r a b) :
    (chainGroup a).Corresponds r (chainGroup b) := by
  cases hr.shape h with
  | group b hitems =>
    cases b with
    | curly => exact corresponds_reject _
    | _ => exact corresponds_parens (corresponds_operands "," hitems)
  | _ => exact corresponds_reject _

include hr in
theorem corresponds_chain (h : List.Forall₂ r xs ys) : (chain xs).Corresponds r (chain ys) := by
  rcases h with _ | ⟨hcallee, hgroups⟩
  · exact corresponds_missing _
  · refine corresponds_parens (corresponds_concat (.cons hcallee ?_))
    exact corresponds_map (fun _ _ => corresponds_chainGroup hr) hgroups

include hr in
theorem corresponds_passedFunction {a b : Sexp} (h : r a b) :
    (passedFunction a).Corresponds r (passedFunction b) := by
  cases hr.shape h with
  | symbol name => exact h
  | group b hitems =>
    cases b with
    | round =>
      rcases hitems with _ | ⟨hhead, _⟩
      · exact corresponds_reject _
      cases hr.shape hhead with
      | symbol name =>
        by_cases hfun : name = "fun"
        · subst hfun
          exact h
        by_cases hlam : name = "lam"
        · subst hlam
          exact h
        have hneither : ∀ args, passedFunction (.group .round (.symbol name :: args))
            = .reject (.shape .passedFunction) := by
          intro args
          simp [passedFunction, hfun, hlam]
        rw [hneither, hneither]
        exact corresponds_reject _
      | _ => exact corresponds_reject _
    | _ => exact corresponds_reject _
  | _ => exact corresponds_reject _

include hr in
theorem corresponds_passThrough (h : List.Forall₂ r xs ys) :
    (passThrough xs).Corresponds r (passThrough ys) := by
  rcases h with _ | @⟨value, value', functions, functions', hvalue, hfunctions⟩
  · exact corresponds_missing _
  rw [passThrough, passThrough]
  -- the functions are applied to any two layouts that correspond
  have hinner := corresponds_parens (corresponds_operand hvalue)
  generalize parens (.operand value) = L at hinner ⊢
  generalize parens (.operand value') = M at hinner ⊢
  induction hfunctions generalizing L M with
  | nil => exact hinner
  | cons hf _ ih => exact ih _ _ (corresponds_parens ⟨rfl, hinner, corresponds_passedFunction hr hf⟩)

/-! ## Literals -/

/-- Two by two, related elements stand with related elements. -/
theorem forall₂_pairs (h : List.Forall₂ r xs ys) :
    List.Forall₂ (fun p q => r p.1 q.1 ∧ r p.2 q.2) (pairs xs) (pairs ys) := by
  induction xs using pairs.induct generalizing ys with
  | case1 a b rest ih =>
    rcases h with _ | ⟨ha, _ | ⟨hb, hrest⟩⟩
    exact .cons ⟨ha, hb⟩ (ih hrest)
  | case2 xs hshort =>
    rcases h with _ | ⟨_, _ | ⟨_, _⟩⟩
    · exact .nil
    · exact .nil
    · exact absurd rfl (hshort _ _ _)

/-- Layouts made of pairs one by one. -/
theorem corresponds_pairs {f : Sexp × Sexp → Layout}
    (hf : ∀ p q, r p.1 q.1 ∧ r p.2 q.2 → (f p).Corresponds r (f q)) (h : List.Forall₂ r xs ys) :
    (separated "," ((pairs xs).map f)).Corresponds r (separated "," ((pairs ys).map f)) := by
  apply corresponds_separated
  rw [List.forall₂_map_left_iff, List.forall₂_map_right_iff]
  exact (forall₂_pairs h).imp hf

include hr in
theorem corresponds_entry {key key' value value' : Sexp} (hkey : r key key') (hvalue : r value value') :
    (entry key value).Corresponds r (entry key' value') := by
  have hshape := hr.shape hkey
  unfold entry
  rw [hshape.isSymbol_eq, hshape.isString_eq, hshape.isNumber_eq]
  split
  · exact ⟨rfl, hkey, rfl, rfl, hvalue⟩
  · exact corresponds_reject _

include hr in
theorem corresponds_objectOf (h : List.Forall₂ r xs ys) :
    (objectOf xs).Corresponds r (objectOf ys) := by
  refine corresponds_parens (corresponds_braces (corresponds_pairs ?_ h))
  rintro ⟨key, value⟩ ⟨key', value'⟩ ⟨hkey, hvalue⟩
  exact corresponds_entry hr hkey hvalue

/-! ## Variables and members -/

theorem corresponds_assignments (h : List.Forall₂ r xs ys) :
    (assignments xs).Corresponds r (assignments ys) := by
  refine corresponds_pairs ?_ h
  rintro ⟨target, value⟩ ⟨target', value'⟩ ⟨htarget, hvalue⟩
  exact ⟨rfl, htarget, rfl, rfl, hvalue⟩

include hr in
theorem corresponds_declare (h : List.Forall₂ r xs ys) :
    (declare xs).Corresponds r (declare ys) := by
  have hnames : ((pairs xs).all fun p => p.1.isSymbol) = (pairs ys).all fun p => p.1.isSymbol := by
    have hpairs := forall₂_pairs h
    generalize pairs xs = ps at hpairs ⊢
    generalize pairs ys = qs at hpairs ⊢
    induction hpairs with
    | nil => rfl
    | cons hpair _ ih => rw [List.all_cons, List.all_cons, (hr.shape hpair.1).isSymbol_eq, ih]
  unfold declare
  rw [hnames]
  split
  · exact corresponds_braces ⟨rfl, rfl, corresponds_assignments h⟩
  · exact corresponds_reject _

theorem corresponds_indices (h : List.Forall₂ r xs ys) :
    (indices xs).Corresponds r (indices ys) :=
  corresponds_concat (corresponds_map (fun _ _ hkey => corresponds_brackets hkey) h)

theorem corresponds_index (h : List.Forall₂ r xs ys) : (index xs).Corresponds r (index ys) := by
  rcases h with _ | ⟨htarget, hkeys⟩
  · exact corresponds_missing _
  · exact corresponds_parens ⟨rfl, htarget, corresponds_indices hkeys⟩

theorem corresponds_store (h : List.Forall₂ r xs ys) : (store xs).Corresponds r (store ys) := by
  rcases h with _ | @⟨target, target', keys, keys', htarget, hkeys⟩
  · exact corresponds_missing _
  have hinitial : List.Forall₂ r keys.dropLast keys'.dropLast := by
    rw [List.dropLast_eq_take, List.dropLast_eq_take, hkeys.length_eq]
    exact List.forall₂_take _ hkeys
  -- the last keys are the first ones from the other end
  have hreverse : List.Forall₂ r keys.reverse keys'.reverse := List.forall₂_reverse_iff.mpr hkeys
  simp only [store, List.getLast?_eq_head?_reverse]
  generalize keys.reverse = ks at hreverse ⊢
  generalize keys'.reverse = ks' at hreverse ⊢
  rcases hreverse with _ | ⟨hvalue, _⟩
  · exact corresponds_missing _
  · exact corresponds_parens ⟨rfl, htarget, rfl, corresponds_indices hinitial, rfl, rfl, hvalue⟩

include hr in
theorem corresponds_memberStep {a b : Sexp} (h : r a b) :
    (memberStep a).Corresponds r (memberStep b) := by
  cases hr.shape h with
  | number x y => exact corresponds_brackets h
  | symbol name => exact corresponds_text _
  | string s t => exact corresponds_brackets h
  | regex p f q g => exact corresponds_reject _
  | group b hitems =>
    cases b with
    | round =>
      rcases hitems with _ | ⟨hhead, hargs⟩
      · exact corresponds_reject _
      cases hr.shape hhead with
      | symbol name => exact ⟨rfl, rfl, corresponds_parens (corresponds_operands "," hargs)⟩
      | _ => exact corresponds_reject _
    | square =>
      rcases hitems with _ | ⟨hkey, _ | ⟨_, _⟩⟩
      · exact corresponds_reject _
      · exact corresponds_brackets hkey
      · exact corresponds_reject _
    | curly => exact corresponds_reject _

include hr in
theorem corresponds_member (h : List.Forall₂ r xs ys) : (member xs).Corresponds r (member ys) := by
  rcases h with _ | ⟨htarget, hsteps⟩
  · exact corresponds_missing _
  · refine corresponds_parens (corresponds_concat (.cons htarget ?_))
    exact corresponds_map (fun _ _ => corresponds_memberStep hr) hsteps

include hr in
theorem corresponds_construct (h : List.Forall₂ r xs ys) :
    (construct xs).Corresponds r (construct ys) := by
  rcases h with _ | ⟨hclass, hargs⟩
  · exact corresponds_missing _
  cases hr.shape hclass with
  | symbol name =>
    exact corresponds_parens ⟨rfl, rfl, corresponds_parens (corresponds_operands "," hargs)⟩
  | _ => exact corresponds_reject _

include hr in
theorem corresponds_instanceTest (h : List.Forall₂ r xs ys) :
    (instanceTest xs).Corresponds r (instanceTest ys) := by
  rcases h with _ | ⟨hvalue, _ | ⟨hclass, _ | ⟨_, _⟩⟩⟩
  · exact corresponds_missing _
  · exact corresponds_missing _
  · rw [instanceTest, instanceTest, (hr.shape hclass).isSymbol_eq]
    split
    · exact corresponds_parens ⟨rfl, hvalue, rfl, rfl, hclass⟩
    · exact corresponds_reject _
  · exact corresponds_missing _

/-! ## Control flow -/

theorem corresponds_conditional (h : List.Forall₂ r xs ys) :
    (conditional xs).Corresponds r (conditional ys) := by
  rcases h with _ | ⟨hcondition, _ | ⟨hyes, _ | ⟨hno, _ | ⟨_, _⟩⟩⟩⟩
  · exact corresponds_missing _
  · exact corresponds_missing _
  · exact corresponds_parens ⟨rfl, hcondition, rfl, rfl, rfl, hyes, rfl, rfl, rfl⟩
  · exact corresponds_parens ⟨rfl, hcondition, rfl, rfl, rfl, hyes, rfl, rfl, hno⟩
  · exact corresponds_missing _

theorem corresponds_branchesFrom (keyword : String) (h : List.Forall₂ r xs ys) :
    List.Forall₂ (Corresponds r) (branchesFrom keyword xs) (branchesFrom keyword ys) := by
  induction keyword, xs using branchesFrom.induct generalizing ys with
  | case1 keyword condition body rest ih =>
    rcases h with _ | ⟨hcondition, _ | ⟨hbody, hrest⟩⟩
    exact .cons ⟨rfl, rfl, rfl, corresponds_parens hcondition, corresponds_braces hbody⟩ (ih hrest)
  | case2 keyword body =>
    rcases h with _ | ⟨hbody, _ | ⟨_, _⟩⟩
    exact .cons ⟨rfl, rfl, corresponds_braces hbody⟩ .nil
  | case3 keyword =>
    rcases h with _ | ⟨_, _⟩
    exact .nil

theorem corresponds_clauses (h : List.Forall₂ r xs ys) :
    List.Forall₂ (Corresponds r) (clauses xs) (clauses ys) := by
  induction xs using clauses.induct generalizing ys with
  | case1 value body rest ih =>
    rcases h with _ | ⟨hvalue, _ | ⟨hbody, hrest⟩⟩
    exact .cons ⟨rfl, rfl, rfl, hvalue, rfl, rfl, rfl, hbody, rfl⟩ (ih hrest)
  | case2 body =>
    rcases h with _ | ⟨hbody, _ | ⟨_, _⟩⟩
    exact .cons ⟨rfl, rfl, hbody⟩ .nil
  | case3 =>
    rcases h with _ | ⟨_, _⟩
    exact .nil

theorem corresponds_cases (h : List.Forall₂ r xs ys) : (cases xs).Corresponds r (cases ys) := by
  rcases h with _ | ⟨hsubject, hitems⟩
  · exact corresponds_missing _
  · refine ⟨rfl, corresponds_parens hsubject, corresponds_functionOf _ ⟨rfl, rfl, ?_⟩⟩
    exact corresponds_braces (corresponds_separated ";" (corresponds_clauses hitems))

include hr in
/-- The labels are the same, and what is left is related. -/
theorem splitLabel_related (h : List.Forall₂ r xs ys) :
    (splitLabel xs).1 = (splitLabel ys).1 ∧ List.Forall₂ r (splitLabel xs).2 (splitLabel ys).2 := by
  rcases h with _ | ⟨hfirst, hrest⟩
  · exact ⟨rfl, .nil⟩
  -- without a label the operands are left as they are
  have hall := List.Forall₂.cons hfirst hrest
  cases hr.shape hfirst with
  | symbol name =>
    simp only [splitLabel]
    split
    · exact ⟨rfl, hrest⟩
    · exact ⟨rfl, hall⟩
  | _ => exact ⟨rfl, hall⟩

theorem corresponds_loopAround (label : String) {initial initial' condition condition' body body' : Sexp}
    {after after' : Layout} (hinitial : r initial initial') (hcondition : r condition condition')
    (hbody : r body body') (hafter : after.Corresponds r after') :
    (loopAround label initial condition body after).Corresponds r
      (loopAround label initial' condition' body' after') :=
  corresponds_calledOnTheSpot ⟨rfl, hinitial, rfl, rfl, rfl, corresponds_parens hcondition, rfl,
    corresponds_braces hbody, hafter⟩

theorem corresponds_loop (label : String) (h : List.Forall₂ r xs ys) :
    (loop label xs).Corresponds r (loop label ys) := by
  rcases h with _ | ⟨hinitial, _ | ⟨hcondition, _ | ⟨hbody, _ | ⟨hafter, _ | ⟨_, _⟩⟩⟩⟩⟩
  · exact corresponds_missing _
  · exact corresponds_missing _
  · exact corresponds_missing _
  · exact corresponds_loopAround label hinitial hcondition hbody (corresponds_text "")
  · exact corresponds_loopAround label hinitial hcondition hbody hafter
  · exact corresponds_missing _

theorem corresponds_iterationOver (label : String) {object object' body body' : Sexp}
    {result result' : Layout} (hobject : r object object') (hbody : r body body')
    (hresult : result.Corresponds r result') :
    (iterationOver label object body result).Corresponds r
      (iterationOver label object' body' result') :=
  ⟨rfl, corresponds_parens hobject, corresponds_functionOf _
    ⟨rfl, rfl, rfl, corresponds_braces ⟨rfl, rfl, hbody⟩, hresult⟩⟩

theorem corresponds_iteration (label : String) (h : List.Forall₂ r xs ys) :
    (iteration label xs).Corresponds r (iteration label ys) := by
  rcases h with _ | ⟨hobject, _ | ⟨hbody, _ | ⟨hresult, _ | ⟨_, _⟩⟩⟩⟩
  · exact corresponds_missing _
  · exact corresponds_missing _
  · exact corresponds_iterationOver label hobject hbody (corresponds_text "")
  · exact corresponds_iterationOver label hobject hbody ⟨rfl, hresult⟩
  · exact corresponds_missing _

include hr in
theorem corresponds_jump (form : Builtin) (h : List.Forall₂ r xs ys) :
    (jump form xs).Corresponds r (jump form ys) := by
  rcases h with _ | ⟨hlabel, _ | ⟨_, _⟩⟩
  · exact corresponds_braces (corresponds_text _)
  · cases hr.shape hlabel with
    | symbol name => exact corresponds_braces (corresponds_text _)
    | _ => exact corresponds_reject _
  · simp only [jump]
    exact corresponds_missing _

/-! ## Exceptions -/

theorem corresponds_attemptThen {body body' handler handler' : Sexp} {last last' : Layout}
    (hbody : r body body') (hhandler : r handler handler') (hlast : last.Corresponds r last') :
    (attemptThen body handler last).Corresponds r (attemptThen body' handler' last') :=
  corresponds_calledOnTheSpot
    ⟨rfl, rfl, rfl, corresponds_braces hbody, rfl, rfl, rfl, corresponds_braces hhandler, hlast⟩

theorem corresponds_attempt (h : List.Forall₂ r xs ys) :
    (attempt xs).Corresponds r (attempt ys) := by
  rcases h with _ | ⟨hbody, _ | ⟨hhandler, _ | ⟨hlast, _ | ⟨_, _⟩⟩⟩⟩
  · exact corresponds_missing _
  · exact corresponds_missing _
  · exact corresponds_attemptThen hbody hhandler (corresponds_text "")
  · exact corresponds_attemptThen hbody hhandler ⟨rfl, rfl, corresponds_braces hlast⟩
  · exact corresponds_missing _

theorem corresponds_raise (h : List.Forall₂ r xs ys) : (raise xs).Corresponds r (raise ys) := by
  rcases h with _ | ⟨hvalue, _ | ⟨_, _⟩⟩
  · exact corresponds_missing _
  · exact corresponds_braces ⟨rfl, rfl, hvalue⟩
  · exact corresponds_missing _

theorem corresponds_raiseNew (form : Builtin) (h : List.Forall₂ r xs ys) :
    (raiseNew form xs).Corresponds r (raiseNew form ys) :=
  corresponds_braces ⟨rfl, rfl, corresponds_parens (corresponds_operands "," h)⟩

theorem corresponds_assertion (h : List.Forall₂ r xs ys) :
    (assertion xs).Corresponds r (assertion ys) := by
  rcases h with _ | ⟨hcondition, _ | ⟨hvalue, _ | ⟨_, _⟩⟩⟩
  · exact corresponds_missing _
  · exact corresponds_missing _
  · refine corresponds_braces ⟨rfl, rfl, rfl, corresponds_parens ?_, rfl, rfl, hvalue⟩
    exact ⟨rfl, rfl, corresponds_parens hcondition⟩
  · exact corresponds_missing _

/-! ## Operators -/

theorem corresponds_operation (op : Operator) (h : List.Forall₂ r xs ys) :
    (operation op xs).Corresponds r (operation op ys) := by
  rcases h with _ | ⟨hfirst, hrest⟩
  · exact corresponds_missing _
  · refine corresponds_parens (corresponds_concat (.cons hfirst ?_))
    refine corresponds_map ?_ hrest
    intro e e' he
    exact ⟨rfl, he⟩

theorem corresponds_exclusiveOr (h : List.Forall₂ r xs ys) :
    (exclusiveOr xs).Corresponds r (exclusiveOr ys) := by
  refine corresponds_parens (corresponds_separated "^" (corresponds_map ?_ h))
  exact fun _ _ he => corresponds_parens ⟨rfl, rfl, he⟩

theorem corresponds_negation (h : List.Forall₂ r xs ys) :
    (negation xs).Corresponds r (negation ys) := by
  rcases h with _ | ⟨he, _ | ⟨_, _⟩⟩
  · exact corresponds_missing _
  · exact corresponds_parens ⟨rfl, he⟩
  · exact corresponds_missing _

theorem corresponds_complement (h : List.Forall₂ r xs ys) :
    (complement xs).Corresponds r (complement ys) := by
  rcases h with _ | ⟨he, _ | ⟨_, _⟩⟩
  · exact corresponds_missing _
  · exact corresponds_parens ⟨rfl, he⟩
  · exact corresponds_missing _

end Forms

section Expressions

open Layout Forms

variable {r : Sexp → Sexp → Prop} (hr : Lookalike r)

include hr

/-- **Built-in forms do not tell related operands apart.** -/
theorem Builtin.corresponds_body {form : Builtin} (hform : form ≠ .macroDefinition) (label : String)
    {xs ys : List Sexp} (h : List.Forall₂ r xs ys) :
    (form.body label xs).Corresponds r (form.body label ys) := by
  cases form with
  | words => exact congrArg Literal.quote (hr.spaced_eq h)
  | arrayOf => exact corresponds_brackets (corresponds_operands "," h)
  | objectOf => exact corresponds_objectOf hr h
  | quotation => exact congrArg Literal.quoteVerbatim (hr.spaced_eq h)
  | function => exact corresponds_function hr h
  | unary => exact corresponds_functionOf "_" (corresponds_functionBody h)
  | closure => exact corresponds_calledOnTheSpot (corresponds_functionBody h)
  | giveBack => exact corresponds_giveBack h
  | giveBackIf => exact corresponds_giveBackIf h
  | argument => exact corresponds_argument h
  | chain => exact corresponds_chain hr h
  | passThrough => exact corresponds_passThrough hr h
  | assign => exact corresponds_parens (corresponds_assignments h)
  | declare => exact corresponds_declare hr h
  | index => exact corresponds_index h
  | store => exact corresponds_store h
  | member => exact corresponds_member hr h
  | construct => exact corresponds_construct hr h
  | instanceTest => exact corresponds_instanceTest hr h
  | conditional => exact corresponds_conditional h
  | branches =>
    exact corresponds_calledOnTheSpot (corresponds_concat (corresponds_branchesFrom "if" h))
  | cases => exact corresponds_cases h
  | loop => exact corresponds_loop label h
  | iteration => exact corresponds_iteration label h
  | skip => exact corresponds_jump hr .skip h
  | leave => exact corresponds_jump hr .leave h
  | block => exact corresponds_braces (corresponds_statements h)
  | nothing => exact corresponds_text ""
  | attempt => exact corresponds_attempt h
  | raise => exact corresponds_raise h
  | raiseError => exact corresponds_raiseNew .raiseError h
  | raiseTypeError => exact corresponds_raiseNew .raiseTypeError h
  | assertion => exact corresponds_assertion h
  | exclusiveOr => exact corresponds_exclusiveOr h
  | negation => exact corresponds_negation h
  | complement => exact corresponds_complement h
  | macroDefinition => exact absurd rfl hform
  | operator op => exact corresponds_operation op h

theorem Builtin.split_related (form : Builtin) {xs ys : List Sexp} (h : List.Forall₂ r xs ys) :
    (form.split xs).1 = (form.split ys).1 ∧ List.Forall₂ r (form.split xs).2 (form.split ys).2 := by
  unfold Builtin.split
  split
  · exact splitLabel_related hr h
  · exact ⟨rfl, h⟩

theorem Builtin.corresponds_layout {form : Builtin} (hform : form ≠ .macroDefinition)
    {xs ys : List Sexp} (h : List.Forall₂ r xs ys) :
    (form.layout xs).Corresponds r (form.layout ys) := by
  obtain ⟨hlabel, hitems⟩ := form.split_related hr h
  unfold Builtin.layout
  dsimp only
  rw [hlabel, hitems.length_eq]
  split
  · exact corresponds_reject _
  · exact Builtin.corresponds_body hr hform _ hitems

/-- **Related expressions have layouts that correspond.** -/
theorem Lookalike.layout {a b : Sexp} (h : r a b) : a.layout.Corresponds r b.layout := by
  have htext := hr.text_eq h
  cases hr.shape h with
  | number x y => exact htext
  | symbol name => exact htext
  | string s t => exact htext
  | regex p f q g => exact htext
  | group b hitems =>
    cases b with
    | square =>
      have hform : Builtin.arrayOf ≠ .macroDefinition := by decide
      exact Builtin.corresponds_layout hr hform hitems
    | curly =>
      have hform : Builtin.objectOf ≠ .macroDefinition := by decide
      exact Builtin.corresponds_layout hr hform hitems
    | round =>
      rcases hitems with _ | ⟨hhead, hargs⟩
      · exact corresponds_reject _
      cases hr.shape hhead with
      | number x y => exact corresponds_reject _
      | string s t => exact corresponds_reject _
      | regex p f q g => exact corresponds_reject _
      | group b hitems =>
        cases b with
        | round => exact corresponds_call hhead hargs
        | square => exact corresponds_reject _
        | curly => exact corresponds_reject _
      | symbol name =>
        simp only [Sexp.layout]
        cases hform : Builtin.ofName? name with
        | none => exact corresponds_call (corresponds_text name) hargs
        | some form =>
          -- the head is related to itself, so it is not the name of macro definitions
          unfold Builtin.ofName? at hform
          have hname : form.name = name := by simpa using List.find?_some hform
          have hne : form ≠ .macroDefinition := by
            rintro rfl
            exact hr.no_definition (hname ▸ hhead)
          exact Builtin.corresponds_layout hr hne hargs

end Expressions

/-! ## Lowering -/

namespace Lowering

variable {α β : Type}

/-- Where no macro is defined, the computations have the same outcome, and they define none. -/
def AgreeBare (x y : Lowering α) : Prop :=
  ∀ s, s.registry = .empty → x s = y s ∧ (x s).2.registry = .empty

theorem agreeBare_pure (a : α) : AgreeBare (pure a) (pure a) := fun _ hs => ⟨rfl, hs⟩

theorem agreeBare_fail (fault : Fault) : AgreeBare (fail fault : Lowering α) (fail fault) :=
  fun _ hs => ⟨rfl, hs⟩

theorem AgreeBare.bind {x y : Lowering α} {f g : α → Lowering β} (hxy : AgreeBare x y)
    (hfg : ∀ a, AgreeBare (f a) (g a)) : AgreeBare (x >>= f) (y >>= g) := by
  intro s hs
  obtain ⟨hrun, hbare⟩ := hxy s hs
  cases hx : x s with
  | mk outcome after =>
    have hy := hrun.symm.trans hx
    rw [hx] at hbare
    cases outcome with
    | error fault =>
      rw [bind_of_error hx, bind_of_error hy]
      exact ⟨rfl, hbare⟩
    | ok a =>
      rw [bind_of_ok hx, bind_of_ok hy]
      exact hfg a after hbare

theorem AgreeBare.nested {x y : Lowering α} (h : AgreeBare x y) : AgreeBare (nested x) (nested y) := by
  intro s hs
  obtain ⟨hrun, hbare⟩ := h { s with depth := s.depth + 1 } hs
  exact ⟨nested_congr hrun, hbare⟩

end Lowering

open Lowering

/-- Layouts that correspond are rendered alike if their operands are lowered alike. -/
theorem Layout.Corresponds.render {r : Sexp → Sexp → Prop} {lower : Sexp → Lowering String}
    (hlower : ∀ a b, r a b → AgreeBare (lower a) (lower b)) {L M : Layout} (h : L.Corresponds r M) :
    AgreeBare (L.render lower) (M.render lower) := by
  induction L generalizing M with
  | text s =>
    cases M with
    | text t =>
      cases h
      exact agreeBare_pure s
    | _ => exact h.elim
  | operand a =>
    cases M with
    | operand b => exact hlower a b h
    | _ => exact h.elim
  | wrap how part ih =>
    cases M with
    | wrap how' part' =>
      obtain ⟨rfl, hpart⟩ := h
      exact (ih hpart).bind fun s => agreeBare_pure _
    | _ => exact h.elim
  | join how first second ihfirst ihsecond =>
    cases M with
    | join how' first' second' =>
      obtain ⟨rfl, hfirst, hsecond⟩ := h
      exact (ihfirst hfirst).bind fun s => (ihsecond hsecond).bind fun t => agreeBare_pure _
    | _ => exact h.elim
  | reject fault =>
    cases M with
    | reject fault' =>
      cases h
      exact agreeBare_fail fault
    | _ => exact h.elim
  | define m => exact h.elim

namespace Lookalike

variable {r : Sexp → Sexp → Prop} (hr : Lookalike r)

include hr

theorem lower (room : Nat) {a b : Sexp} (h : r a b) : AgreeBare (a.lower room) (b.lower room) := by
  induction room generalizing a b with
  | zero =>
    rw [Sexp.lower, Sexp.lower, (hr.shape h).kind_eq]
    exact agreeBare_fail _
  | succ room ih =>
    intro s hs
    rw [Sexp.lower_of_bare hs, Sexp.lower_of_bare hs]
    exact ((hr.layout h).render fun _ _ hab => ih hab).nested s hs

/-- **Related expressions are lowered alike** as long as no macro is defined. -/
theorem lowered {a b : Sexp} (h : r a b) : AgreeBare a.lowered b.lowered :=
  fun s hs => hr.lower _ h s hs

end Lookalike

end FormScript
