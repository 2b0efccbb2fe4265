import FormScript.Lowering.Form
import FormScript.Proofs.Lowering.Makeup
import FormScript.Proofs.Lowering.Promises
import FormScript.Proofs.Macro.Expansion

/-!
# Texts that forms put together

Many properties of lowered texts are kept by every form because they are kept by the few ways in which forms
put texts together: one text after another, a text in brackets, two statements with a semicolon between them.
`Composes p Q` lists these ways for a property `Q` of texts, where `p` says which atoms there may be. It
follows that every expression of such atoms is lowered to a text with the property, whatever macros made of
such atoms are known (`Composes.kept`).

A layout is `Safe` when its text has the property if those of its operands have it. There is one lemma for
each way to build a layout, and one for each form.
-/

namespace FormScript

open Sexp

/-- The texts that forms write themselves, without the brackets and the semicolons around other texts. -/
def fixedTexts : List String :=
  ["", " ", ",", "?", ":", "=", ".", "!", "!!", "^", "-", "()", "_", "obj_", "null", "function", "return",
    "if", "else if", "else", "switch(_)", "case ", "default:", "while", "for(var key in obj_)", "break",
    "continue", "try", "catch(_)", "finally", "throw ", "Error", "TypeError", "var ", "new ", " instanceof ",
    "arguments.length>", "?arguments", ":undefined"]
  ++ Operator.all.map Operator.spelling

/-- The property `Q` is kept where forms put texts together, and atoms with `p` are written with it. -/
structure Composes (p : Sexp → Prop) (Q : String → Prop) : Prop where
  fixed : ∀ s ∈ fixedTexts, Q s
  append : ∀ {s t : String}, Q s → Q t → Q (s ++ t)
  between : ∀ (b : Bracket) {s : String}, Q s →
    Q (String.singleton b.opening ++ (s ++ String.singleton b.closing))
  /-- Two statements, each of which leaves a text. -/
  sequence : ∀ {s t : String}, Q s → s ≠ "" → Q t → t ≠ "" → Q (s ++ (";" ++ t))
  /-- The block of a loop over members, in which a statement of its own comes first. -/
  members : p (.symbol Builtin.iteration.name) → ∀ {s : String}, Q s →
    Q ("\x7b" ++ (("var val=obj_[key];" ++ s) ++ "\x7d"))
  atom : ∀ {a : Sexp}, p a → a.elements? = none → Q a.text
  label : ∀ {name : String}, p (.symbol name) → Q (Forms.labelName name)
  words : ∀ {es : List Sexp}, EveryIn p es → Q (Literal.quote (spaced es))
  quotation : ∀ {es : List Sexp}, EveryIn p es → Q (Literal.quoteVerbatim (spaced es))
  closed : Closed p

/-- Expressions of such atoms have texts with the property, and so have their expansions. -/
def composing (p : Sexp → Prop) (Q : String → Prop) : Promise where
  admits e := e.Every p
  keeps m := EveryIn p m.body
  gives _ text := Q text

namespace Layout

/-- The text has the property if those of the operands have it. -/
def Safe (p : Sexp → Prop) (Q : String → Prop) (L : Layout) : Prop := L.Ensures (composing p Q) Q

/-- All layouts are safe. -/
def AllSafe (p : Sexp → Prop) (Q : String → Prop) : List Layout → Prop
  | [] => True
  | part :: rest => part.Safe p Q ∧ AllSafe p Q rest

end Layout

section Composition

variable {p : Sexp → Prop} {Q : String → Prop}

theorem everyIn_of_group {b : Bracket} {items : List Sexp} (h : (group b items).Every p) :
    EveryIn p items := everyIn_iff.mpr (every_group.mp h)

namespace Layout

theorem safe_operand {e : Sexp} (h : e.Every p) : (operand e).Safe p Q := ⟨h, fun _ hs => hs⟩

theorem safe_reject (fault : Fault) : (reject fault).Safe p Q := trivial

theorem safe_wrap {how : Wrap} {part : Layout} (hhow : ∀ s, Q s → Q (how.apply s))
    (h : part.Safe p Q) : (wrap how part).Safe p Q := h.mono hhow

theorem allSafe_iff {parts : List Layout} : AllSafe p Q parts ↔ ∀ part ∈ parts, part.Safe p Q := by
  induction parts with
  | nil => simp [AllSafe]
  | cons part rest ih => simp [AllSafe, ih]

theorem allSafe_map {α : Type} {f : α → Layout} {xs : List α} (h : ∀ x ∈ xs, (f x).Safe p Q) :
    AllSafe p Q (xs.map f) := by
  rw [allSafe_iff]
  intro part hpart
  obtain ⟨x, hx, rfl⟩ := List.mem_map.mp hpart
  exact h x hx

end Layout

namespace Composes

variable (hc : Composes p Q)
include hc

theorem empty : Q "" := hc.fixed "" (by decide)

theorem symbol {name : String} (h : (Sexp.symbol name).Every p) : Q name :=
  hc.atom (every_symbol.mp h) rfl

theorem joint (how : Joint) {s t : String} (hs : Q s) (ht : Q t) : Q (how.apply s t) := by
  cases how with
  | adjacent => exact hc.append hs ht
  | behind => exact hc.append ht hs
  | statements =>
    simp only [Joint.apply, String.isEmpty_iff]
    split
    · exact ht
    · rename_i hne
      split
      · exact hs
      · rename_i hne'
        rw [String.append_assoc]
        exact hc.sequence hs hne ht hne'

theorem keyword {word : String} (hword : Q word) {s : String} (hs : Q s) :
    Q (Wrap.afterKeyword word s) := by
  unfold Wrap.afterKeyword
  split
  · exact hc.append hword hs
  · exact hc.append (hc.append hword (hc.fixed " " (by decide))) hs

theorem intercalate {separator : String} (hseparator : Q separator) {texts : List String}
    (h : ∀ text ∈ texts, Q text) : Q (separator.intercalate texts) := by
  induction texts with
  | nil =>
    rw [String.intercalate_nil]
    exact hc.empty
  | cons text rest ih =>
    obtain ⟨htext, hrest⟩ := List.forall_mem_cons.mp h
    cases rest with
    | nil =>
      rw [String.intercalate_singleton]
      exact htext
    | cons next more =>
      rw [String.intercalate_cons_cons]
      exact hc.append (hc.append htext hseparator) (ih hrest)

end Composes

/-! ## Ways to build layouts -/

namespace Layout

variable (hc : Composes p Q)
include hc

theorem safe_fixed {s : String} (h : s ∈ fixedTexts) : (text s).Safe p Q := hc.fixed s h

theorem safe_join {how : Joint} {first second : Layout} (hfirst : first.Safe p Q)
    (hsecond : second.Safe p Q) : (join how first second).Safe p Q :=
  hfirst.mono fun _ hs => hsecond.mono fun _ ht => hc.joint how hs ht

theorem safe_concat {parts : List Layout} (h : AllSafe p Q parts) : (concat parts).Safe p Q := by
  fun_induction concat parts with
  | case1 => exact hc.empty
  | case2 part => exact h.1
  | case3 part next rest ih => exact safe_join hc h.1 (ih h.2)

theorem safe_separated {separator : String} (hseparator : separator ∈ fixedTexts) {parts : List Layout}
    (h : AllSafe p Q parts) : (separated separator parts).Safe p Q := by
  fun_induction separated separator parts with
  | case1 => exact hc.empty
  | case2 part => exact h.1
  | case3 part next rest ih =>
    exact safe_join hc h.1 (safe_join hc (safe_fixed hc hseparator) (ih h.2))

theorem safe_operands {es : List Sexp} (h : EveryIn p es) : (operands "," es).Safe p Q :=
  safe_separated hc (by decide) (allSafe_map fun e he => safe_operand (everyIn_iff.mp h e he))

theorem safe_parens {part : Layout} (h : part.Safe p Q) : (parens part).Safe p Q :=
  h.mono fun _ hs => hc.between .round hs

theorem safe_brackets {part : Layout} (h : part.Safe p Q) : (brackets part).Safe p Q :=
  h.mono fun _ hs => hc.between .square hs

theorem safe_braces {part : Layout} (h : part.Safe p Q) : (braces part).Safe p Q :=
  h.mono fun _ hs => hc.between .curly hs

theorem safe_keyword {word : String} (hword : word ∈ fixedTexts) {part : Layout} (h : part.Safe p Q) :
    (wrap (.keyword word) part).Safe p Q :=
  safe_wrap (fun _ hs => hc.keyword (hc.fixed word hword) hs) h

theorem safe_operator {spelling : String} (hspelling : spelling ∈ fixedTexts) {part : Layout}
    (h : part.Safe p Q) : (wrap (.operator spelling) part).Safe p Q := by
  refine safe_wrap (fun s hs => ?_) h
  have hoperator := hc.fixed spelling hspelling
  simp only [Wrap.apply, Wrap.afterOperator]
  split
  · exact hc.append (hc.append hoperator (hc.fixed " " (by decide))) hs
  · exact hc.append hoperator hs

theorem safe_result {part : Layout} (h : part.Safe p Q) : (wrap .result part).Safe p Q := by
  refine safe_wrap (fun s hs => ?_) h
  simp only [Wrap.apply]
  split
  · exact hc.empty
  · exact hc.keyword (hc.fixed "return" (by decide)) hs

theorem safe_statements {es : List Sexp} (h : EveryIn p es) : (statements es).Safe p Q := by
  induction es with
  | nil => exact hc.empty
  | cons e es ih => exact safe_join hc (safe_operand h.1) (ih h.2)

theorem safe_functionBody {es : List Sexp} (h : EveryIn p es) : (functionBody es).Safe p Q := by
  fun_induction functionBody es with
  | case1 => exact hc.empty
  | case2 e => exact safe_result hc (safe_operand h.1)
  | case3 e next rest ih => exact safe_join hc (safe_operand h.1) (ih h.2)

theorem safe_functionOf {params : String} (hparams : Q params) {body : Layout} (h : body.Safe p Q) :
    (functionOf params body).Safe p Q := by
  have hlist : (text params).Safe p Q := hparams
  exact safe_parens hc (safe_concat hc
    ⟨safe_fixed hc (by decide), safe_parens hc hlist, safe_braces hc h, trivial⟩)

end Layout

/-! ## Forms -/

namespace Forms

open Layout

variable (hc : Composes p Q)
include hc

theorem safe_calledOnTheSpot {body : Layout} (h : body.Safe p Q) : (calledOnTheSpot body).Safe p Q :=
  safe_concat hc ⟨safe_functionOf hc hc.empty h, safe_fixed hc (by decide), trivial⟩

theorem safe_call {callee : Layout} (hcallee : callee.Safe p Q) {args : List Sexp}
    (h : EveryIn p args) : (call callee args).Safe p Q :=
  safe_parens hc (safe_concat hc ⟨hcallee, safe_parens hc (safe_operands hc h), trivial⟩)

/-- The names of a parameter list come from its symbols. -/
theorem parameterNames_of_every {params : List Sexp} (h : EveryIn p params) {names : List String}
    (hnames : parameterNames? params = some names) : ∀ name ∈ names, Q name := by
  fun_induction parameterNames? params generalizing names with
  | case1 =>
    cases hnames
    simp
  | case2 name rest ih =>
    obtain ⟨more, hmore, rfl⟩ := Option.map_eq_some_iff.mp hnames
    exact List.forall_mem_cons.mpr ⟨hc.symbol h.1, ih h.2 hmore⟩
  | case3 => cases hnames

theorem safe_function {items : List Sexp} (h : EveryIn p items) : (function items).Safe p Q := by
  unfold function
  split
  · rename_i params body
    split
    · rename_i names hnames
      have hparams := parameterNames_of_every hc (everyIn_of_group h.1) hnames
      have hcomma : Q "," := hc.fixed "," (by decide)
      exact safe_functionOf hc (hc.intercalate hcomma hparams) (safe_functionBody hc h.2)
    · exact safe_reject _
  · exact safe_reject _
  · exact safe_reject _

theorem safe_giveBack {items : List Sexp} (h : EveryIn p items) : (giveBack items).Safe p Q := by
  unfold giveBack
  split
  · exact safe_braces hc (safe_keyword hc (by decide) (safe_operand h.1))
  · exact safe_reject _

theorem safe_giveBackIf {items : List Sexp} (h : EveryIn p items) : (giveBackIf items).Safe p Q := by
  unfold giveBackIf
  split
  · obtain ⟨hcondition, hvalue, _⟩ := h
    exact safe_braces hc (safe_concat hc ⟨safe_fixed hc (by decide),
      safe_parens hc (safe_operand hcondition), safe_keyword hc (by decide) (safe_operand hvalue),
      trivial⟩)
  · exact safe_reject _

/-- The index stands between brackets that the fixed texts open and close. -/
theorem safe_argument {items : List Sexp} (h : EveryIn p items) : (argument items).Safe p Q := by
  unfold argument
  split
  · refine safe_parens hc (safe_wrap (fun s hs => ?_) (safe_operand h.1))
    have hbefore : Q "arguments.length>" := hc.fixed _ (by decide)
    have hindex : Q ("?arguments" ++ ("[" ++ (s ++ "]"))) :=
      hc.append (hc.fixed _ (by decide)) (hc.between .square hs)
    have hafter : Q ":undefined" := hc.fixed _ (by decide)
    have hsplit : Wrap.apply (.twice "arguments.length>" "?arguments[" "]:undefined") s
        = "arguments.length>" ++ s ++ ("?arguments" ++ ("[" ++ (s ++ "]"))) ++ ":undefined" := by
      apply String.toList_inj.mp
      simp [Wrap.apply]
    rw [hsplit]
    exact hc.append (hc.append (hc.append hbefore hs) hindex) hafter
  · exact safe_reject _

theorem safe_chainGroup {group : Sexp} (h : group.Every p) : (chainGroup group).Safe p Q := by
  unfold chainGroup
  split
  · exact safe_parens hc (safe_operands hc (everyIn_of_group h))
  · exact safe_parens hc (safe_operands hc (everyIn_of_group h))
  · exact safe_reject _

theorem safe_chain {items : List Sexp} (h : EveryIn p items) : (chain items).Safe p Q := by
  unfold chain
  split
  · refine safe_parens hc (safe_concat hc ⟨safe_operand h.1, allSafe_map fun group hgroup => ?_⟩)
    exact safe_chainGroup hc (everyIn_iff.mp h.2 group hgroup)
  · exact safe_reject _

omit hc in
theorem safe_passedFunction {f : Sexp} (h : f.Every p) : (passedFunction f).Safe p Q := by
  unfold passedFunction
  split
  · exact safe_operand h
  · exact safe_operand h
  · exact safe_operand h
  · exact safe_reject _

theorem safe_passThrough {items : List Sexp} (h : EveryIn p items) : (passThrough items).Safe p Q := by
  unfold passThrough
  split
  · rename_i value functions
    -- what has been passed through some of the functions is safe, so it is behind the next one
    have hpass : ∀ (functions : List Sexp) (inner : Layout), EveryIn p functions → inner.Safe p Q →
        (functions.foldl (fun inner f => parens (.join .behind inner (passedFunction f)))
          inner).Safe p Q := by
      intro functions
      induction functions with
      | nil => exact fun inner _ hinner => hinner
      | cons f rest ih =>
        intro inner hfunctions hinner
        exact ih _ hfunctions.2 (safe_parens hc (safe_join hc hinner (safe_passedFunction hfunctions.1)))
    exact hpass functions _ h.2 (safe_parens hc (safe_operand h.1))
  · exact safe_reject _

/-! ### Literals, variables and members -/

theorem safe_arrayOf {items : List Sexp} (h : EveryIn p items) : (arrayOf items).Safe p Q :=
  safe_brackets hc (safe_operands hc h)

theorem safe_entry {key value : Sexp} (hkey : key.Every p) (hvalue : value.Every p) :
    (entry key value).Safe p Q := by
  unfold entry
  split
  · exact safe_concat hc ⟨safe_operand hkey, safe_fixed hc (by decide), safe_operand hvalue, trivial⟩
  · exact safe_reject _

theorem safe_objectOf {items : List Sexp} (h : EveryIn p items) : (objectOf items).Safe p Q := by
  refine safe_parens hc (safe_braces hc (safe_separated hc (by decide) (allSafe_map fun pair hpair => ?_)))
  obtain ⟨hkey, hvalue⟩ := forall_pairs (everyIn_iff.mp h) pair hpair
  exact safe_entry hc hkey hvalue

theorem safe_assignments {items : List Sexp} (h : EveryIn p items) : (assignments items).Safe p Q := by
  refine safe_separated hc (by decide) (allSafe_map fun pair hpair => ?_)
  obtain ⟨htarget, hvalue⟩ := forall_pairs (everyIn_iff.mp h) pair hpair
  exact safe_concat hc ⟨safe_operand htarget, safe_fixed hc (by decide), safe_operand hvalue, trivial⟩

theorem safe_declare {items : List Sexp} (h : EveryIn p items) : (declare items).Safe p Q := by
  unfold declare
  split
  · exact safe_braces hc (safe_concat hc ⟨safe_fixed hc (by decide), safe_assignments hc h, trivial⟩)
  · exact safe_reject _

theorem safe_indices {keys : List Sexp} (h : EveryIn p keys) : (indices keys).Safe p Q :=
  safe_concat hc
    (allSafe_map fun key hkey => safe_brackets hc (safe_operand (everyIn_iff.mp h key hkey)))

theorem safe_index {items : List Sexp} (h : EveryIn p items) : (index items).Safe p Q := by
  unfold index
  split
  · exact safe_parens hc (safe_concat hc ⟨safe_operand h.1, safe_indices hc h.2, trivial⟩)
  · exact safe_reject _

theorem safe_store {items : List Sexp} (h : EveryIn p items) : (store items).Safe p Q := by
  unfold store
  split
  · rename_i target keys
    split
    · rename_i value hvalue
      have hkeys := everyIn_iff.mp h.2
      have hlast : value.Every p := hkeys value (List.mem_of_getLast? hvalue)
      have hothers : EveryIn p keys.dropLast :=
        everyIn_iff.mpr fun key hkey => hkeys key (List.dropLast_subset keys hkey)
      exact safe_parens hc (safe_concat hc ⟨safe_operand h.1, safe_indices hc hothers,
        safe_fixed hc (by decide), safe_operand hlast, trivial⟩)
    · exact safe_reject _
  · exact safe_reject _

/-- A name behind a fixed text. -/
theorem safe_named {lead name : String} (hlead : lead ∈ fixedTexts)
    (hname : (Sexp.symbol name).Every p) : (text (lead ++ name)).Safe p Q :=
  hc.append (hc.fixed lead hlead) (hc.symbol hname)

theorem safe_memberStep {step : Sexp} (h : step.Every p) : (memberStep step).Safe p Q := by
  unfold memberStep
  split
  · exact safe_named hc (by decide) h
  · have hitems := everyIn_of_group h
    exact safe_concat hc ⟨safe_named hc (by decide) hitems.1,
      safe_parens hc (safe_operands hc hitems.2), trivial⟩
  · exact safe_reject _
  · exact safe_brackets hc (safe_operand h)
  · exact safe_brackets hc (safe_operand h)
  · exact safe_brackets hc (safe_operand (everyIn_of_group h).1)
  · exact safe_reject _

theorem safe_member {items : List Sexp} (h : EveryIn p items) : (member items).Safe p Q := by
  unfold member
  split
  · refine safe_parens hc (safe_concat hc ⟨safe_operand h.1, allSafe_map fun step hstep => ?_⟩)
    exact safe_memberStep hc (everyIn_iff.mp h.2 step hstep)
  · exact safe_reject _

theorem safe_construct {items : List Sexp} (h : EveryIn p items) : (construct items).Safe p Q := by
  unfold construct
  split
  · exact safe_parens hc (safe_concat hc
      ⟨safe_named hc (by decide) h.1, safe_parens hc (safe_operands hc h.2), trivial⟩)
  · exact safe_reject _
  · exact safe_reject _

theorem safe_instanceTest {items : List Sexp} (h : EveryIn p items) : (instanceTest items).Safe p Q := by
  unfold instanceTest
  split
  · obtain ⟨hvalue, hcls, _⟩ := h
    split
    · exact safe_parens hc (safe_concat hc
        ⟨safe_operand hvalue, safe_fixed hc (by decide), safe_operand hcls, trivial⟩)
    · exact safe_reject _
  · exact safe_reject _

/-! ### Control flow and exceptions -/

theorem safe_conditional {items : List Sexp} (h : EveryIn p items) : (conditional items).Safe p Q := by
  unfold conditional
  split
  · obtain ⟨hcondition, hyes, _⟩ := h
    exact safe_parens hc (safe_concat hc ⟨safe_operand hcondition, safe_fixed hc (by decide),
      safe_operand hyes, safe_fixed hc (by decide), safe_fixed hc (by decide), trivial⟩)
  · obtain ⟨hcondition, hyes, hno, _⟩ := h
    exact safe_parens hc (safe_concat hc ⟨safe_operand hcondition, safe_fixed hc (by decide),
      safe_operand hyes, safe_fixed hc (by decide), safe_operand hno, trivial⟩)
  · exact safe_reject _

theorem allSafe_branchesFrom {keyword : String} (hkeyword : keyword ∈ fixedTexts) {items : List Sexp}
    (h : EveryIn p items) : AllSafe p Q (branchesFrom keyword items) := by
  fun_induction branchesFrom keyword items with
  | case1 keyword condition body rest ih =>
    exact ⟨safe_concat hc ⟨safe_fixed hc hkeyword, safe_parens hc (safe_operand h.1),
      safe_braces hc (safe_operand h.2.1), trivial⟩, ih (by decide) h.2.2⟩
  | case2 keyword body =>
    exact ⟨safe_concat hc ⟨safe_fixed hc (by decide), safe_braces hc (safe_operand h.1), trivial⟩,
      trivial⟩
  | case3 => exact trivial

theorem safe_branches {items : List Sexp} (h : EveryIn p items) : (branches items).Safe p Q :=
  safe_calledOnTheSpot hc (safe_concat hc (allSafe_branchesFrom hc (by decide) h))

/-- The text has the property, and there is one. -/
def Filled (Q : String → Prop) (text : String) : Prop := Q text ∧ text ≠ ""

theorem filled_clauses {items : List Sexp} (h : EveryIn p items) :
    ∀ clause ∈ clauses items, clause.Ensures (composing p Q) (Filled Q) := by
  fun_induction clauses items with
  | case1 value body rest ih =>
    refine List.forall_mem_cons.mpr ⟨?_, ih h.2.2⟩
    refine ⟨h.1, fun v hv => ⟨h.2.1, fun t ht => ⟨?_, by simp [Joint.apply]⟩⟩⟩
    -- the statement of the clause, with its value in front of it, and the jump behind it
    have hcase : Q ("case " ++ v ++ (":" ++ t)) :=
      hc.append (hc.append (hc.fixed _ (by decide)) hv) (hc.append (hc.fixed _ (by decide)) ht)
    have hjump : Q "break" := hc.fixed _ (by decide)
    have hsplit : "case " ++ (v ++ (":" ++ (t ++ ";break")))
        = "case " ++ v ++ (":" ++ t) ++ (";" ++ "break") := by
      apply String.toList_inj.mp
      simp
    show Q ("case " ++ (v ++ (":" ++ (t ++ ";break"))))
    rw [hsplit]
    exact hc.sequence hcase (by simp) hjump (by decide)
  | case2 body =>
    refine List.forall_mem_cons.mpr ⟨?_, fun _ hclause => absurd hclause List.not_mem_nil⟩
    refine ⟨h.1, fun t ht => ⟨?_, by simp [Joint.apply]⟩⟩
    exact hc.append (hc.fixed _ (by decide)) ht
  | case3 => exact fun _ hclause => absurd hclause List.not_mem_nil

/-- Texts that are there may be separated by semicolons. -/
theorem filled_sequence {part : Layout} {parts : List Layout}
    (h : ∀ part' ∈ part :: parts, part'.Ensures (composing p Q) (Filled Q)) :
    (separated ";" (part :: parts)).Ensures (composing p Q) (Filled Q) := by
  induction parts generalizing part with
  | nil => exact h part List.mem_cons_self
  | cons next rest ih =>
    obtain ⟨hpart, hrest⟩ := List.forall_mem_cons.mp h
    refine hpart.mono fun s hs => (ih hrest).mono fun t ht => ⟨?_, ?_⟩
    · exact hc.sequence hs.1 hs.2 ht.1 ht.2
    · simp [Joint.apply]

theorem safe_clauses {items : List Sexp} (h : EveryIn p items) :
    (separated ";" (clauses items)).Safe p Q := by
  have hclauses := filled_clauses hc h
  cases hlist : clauses items with
  | nil => exact hc.empty
  | cons clause rest =>
    rw [hlist] at hclauses
    exact (filled_sequence hc hclauses).mono fun _ ht => ht.1

theorem safe_cases {items : List Sexp} (h : EveryIn p items) : (cases items).Safe p Q := by
  unfold cases
  split
  · exact safe_join hc (safe_parens hc (safe_operand h.1)) (safe_functionOf hc (hc.fixed _ (by decide))
      (safe_concat hc ⟨safe_fixed hc (by decide), safe_braces hc (safe_clauses hc h.2), trivial⟩))
  · exact safe_reject _

/-- A fixed text behind a label. -/
theorem safe_labelled {label word : String} (hlabel : Q label) (hword : word ∈ fixedTexts) :
    (text (label ++ word)).Safe p Q := hc.append hlabel (hc.fixed word hword)

theorem safe_loopAround {label : String} (hlabel : Q label) {initial condition body : Sexp}
    (hinitial : initial.Every p) (hcondition : condition.Every p) (hbody : body.Every p)
    {after : Layout} (hafter : after.Safe p Q) :
    (loopAround label initial condition body after).Safe p Q :=
  safe_calledOnTheSpot hc (safe_join hc (safe_operand hinitial) (safe_concat hc
    ⟨safe_labelled hc hlabel (by decide), safe_parens hc (safe_operand hcondition),
      safe_braces hc (safe_operand hbody), hafter, trivial⟩))

theorem safe_loop {label : String} (hlabel : Q label) {items : List Sexp} (h : EveryIn p items) :
    (loop label items).Safe p Q := by
  unfold loop
  split
  · obtain ⟨hinitial, hcondition, hbody, _⟩ := h
    exact safe_loopAround hc hlabel hinitial hcondition hbody hc.empty
  · obtain ⟨hinitial, hcondition, hbody, hafter, _⟩ := h
    exact safe_loopAround hc hlabel hinitial hcondition hbody (safe_operand hafter)
  · exact safe_reject _

theorem safe_iterationOver (hname : p (.symbol Builtin.iteration.name)) {label : String}
    (hlabel : Q label) {object body : Sexp} (hobject : object.Every p) (hbody : body.Every p)
    {result : Layout} (hresult : result.Safe p Q) :
    (iterationOver label object body result).Safe p Q := by
  have hblock : (braces (concat ["var val=obj_[key];", .operand body])).Safe p Q :=
    ⟨hbody, fun _ ht => hc.members hname ht⟩
  exact safe_join hc (safe_parens hc (safe_operand hobject)) (safe_functionOf hc (hc.fixed _ (by decide))
    (safe_concat hc ⟨safe_labelled hc hlabel (by decide), hblock, hresult, trivial⟩))

theorem safe_iteration (hname : p (.symbol Builtin.iteration.name)) {label : String} (hlabel : Q label)
    {items : List Sexp} (h : EveryIn p items) : (iteration label items).Safe p Q := by
  unfold iteration
  split
  · obtain ⟨hobject, hbody, _⟩ := h
    exact safe_iterationOver hc hname hlabel hobject hbody hc.empty
  · obtain ⟨hobject, hbody, hresult, _⟩ := h
    exact safe_iterationOver hc hname hlabel hobject hbody
      (safe_keyword hc (by decide) (safe_operand hresult))
  · exact safe_reject _

theorem safe_jump {form : Builtin} (hform : form.name ∈ fixedTexts) {items : List Sexp}
    (h : EveryIn p items) : (jump form items).Safe p Q := by
  unfold jump
  split
  · exact safe_braces hc (safe_fixed hc hform)
  · rename_i label
    have hspace : Q (form.name ++ " ") := hc.append (hc.fixed _ hform) (hc.fixed _ (by decide))
    have hlabel : (text (form.name ++ " " ++ labelName label)).Safe p Q :=
      hc.append hspace (hc.label (every_symbol.mp h.1))
    exact safe_braces hc hlabel
  · exact safe_reject _
  · exact safe_reject _

theorem safe_attemptThen {body handler : Sexp} (hbody : body.Every p) (hhandler : handler.Every p)
    {last : Layout} (hlast : last.Safe p Q) : (attemptThen body handler last).Safe p Q :=
  safe_calledOnTheSpot hc (safe_concat hc ⟨safe_fixed hc (by decide), safe_braces hc (safe_operand hbody),
    safe_fixed hc (by decide), safe_braces hc (safe_operand hhandler), hlast, trivial⟩)

theorem safe_attempt {items : List Sexp} (h : EveryIn p items) : (attempt items).Safe p Q := by
  unfold attempt
  split
  · obtain ⟨hbody, hhandler, _⟩ := h
    exact safe_attemptThen hc hbody hhandler hc.empty
  · obtain ⟨hbody, hhandler, hlast, _⟩ := h
    exact safe_attemptThen hc hbody hhandler
      (safe_concat hc ⟨safe_fixed hc (by decide), safe_braces hc (safe_operand hlast), trivial⟩)
  · exact safe_reject _

theorem safe_raise {items : List Sexp} (h : EveryIn p items) : (raise items).Safe p Q := by
  unfold raise
  split
  · exact safe_braces hc (safe_concat hc ⟨safe_fixed hc (by decide), safe_operand h.1, trivial⟩)
  · exact safe_reject _

theorem safe_raiseNew {form : Builtin} (hform : form.name ∈ fixedTexts) {args : List Sexp}
    (h : EveryIn p args) : (raiseNew form args).Safe p Q := by
  have hthrow : (text ("throw " ++ form.name)).Safe p Q :=
    hc.append (hc.fixed _ (by decide)) (hc.fixed _ hform)
  exact safe_braces hc (safe_concat hc ⟨hthrow, safe_parens hc (safe_operands hc h), trivial⟩)

theorem safe_assertion {items : List Sexp} (h : EveryIn p items) : (assertion items).Safe p Q := by
  unfold assertion
  split
  · rename_i condition value
    obtain ⟨hcondition, hvalue, _⟩ := h
    have hfails : (concat ["!", parens (.operand condition)]).Safe p Q :=
      safe_concat hc ⟨safe_fixed hc (by decide), safe_parens hc (safe_operand hcondition), trivial⟩
    exact safe_braces hc (safe_concat hc
      ⟨safe_fixed hc (by decide), safe_parens hc hfails, safe_fixed hc (by decide),
        safe_operand hvalue, trivial⟩)
  · exact safe_reject _

/-! ### Operators and macro definitions -/

theorem safe_operation (op : Operator) {items : List Sexp} (h : EveryIn p items) :
    (operation op items).Safe p Q := by
  have hspelling : op.spelling ∈ fixedTexts := by cases op <;> decide
  unfold operation
  split
  · refine safe_parens hc (safe_concat hc ⟨safe_operand h.1, allSafe_map fun e he => ?_⟩)
    exact safe_operator hc hspelling (safe_operand (everyIn_iff.mp h.2 e he))
  · exact safe_reject _

theorem safe_exclusiveOr {items : List Sexp} (h : EveryIn p items) : (exclusiveOr items).Safe p Q := by
  refine safe_parens hc (safe_separated hc (by decide) (allSafe_map fun e he => ?_))
  exact safe_parens hc (safe_concat hc
    ⟨safe_fixed hc (by decide), safe_operand (everyIn_iff.mp h e he), trivial⟩)

theorem safe_negation {items : List Sexp} (h : EveryIn p items) : (negation items).Safe p Q := by
  unfold negation
  split
  · exact safe_parens hc (safe_operator hc (by decide) (safe_operand h.1))
  · exact safe_reject _

theorem safe_complement {items : List Sexp} (h : EveryIn p items) : (complement items).Safe p Q := by
  unfold complement
  split
  · exact safe_parens hc (safe_keyword hc (by decide) (safe_operand h.1))
  · exact safe_reject _

/-- The body of a macro is part of its definition. -/
theorem safe_macroDefinition (hname : p (.symbol Builtin.macroDefinition.name)) {items : List Sexp}
    (h : EveryIn p items) : (macroDefinition items).Safe p Q := by
  unfold macroDefinition
  split
  · rename_i m hm
    have hdefined := definedFrom_of_macroOf (every_symbol.mpr hname) (everyIn_iff.mp h) hm
    exact ⟨everyIn_iff.mpr hdefined.body, hc.empty⟩
  · exact safe_reject _

end Forms

/-! ## Expressions -/

variable (hc : Composes p Q)
include hc

open Layout Forms

/-- **Every built-in form is safe.** -/
theorem Builtin.safe_body {form : Builtin} (hname : p (.symbol form.name)) {label : String}
    (hlabel : Q label) {items : List Sexp} (h : EveryIn p items) :
    (form.body label items).Safe p Q := by
  cases form with
  | words => exact hc.words h
  | arrayOf => exact safe_arrayOf hc h
  | objectOf => exact safe_objectOf hc h
  | quotation => exact hc.quotation h
  | function => exact safe_function hc h
  | unary => exact safe_functionOf hc (hc.fixed _ (by decide)) (safe_functionBody hc h)
  | closure => exact safe_calledOnTheSpot hc (safe_functionBody hc h)
  | giveBack => exact safe_giveBack hc h
  | giveBackIf => exact safe_giveBackIf hc h
  | argument => exact safe_argument hc h
  | chain => exact safe_chain hc h
  | passThrough => exact safe_passThrough hc h
  | assign => exact safe_parens hc (safe_assignments hc h)
  | declare => exact safe_declare hc h
  | index => exact safe_index hc h
  | store => exact safe_store hc h
  | member => exact safe_member hc h
  | construct => exact safe_construct hc h
  | instanceTest => exact safe_instanceTest hc h
  | conditional => exact safe_conditional hc h
  | branches => exact safe_branches hc h
  | cases => exact safe_cases hc h
  | loop => exact safe_loop hc hlabel h
  | iteration => exact safe_iteration hc hname hlabel h
  | skip => exact safe_jump hc (by decide) h
  | leave => exact safe_jump hc (by decide) h
  | block => exact safe_braces hc (safe_statements hc h)
  | nothing => exact hc.empty
  | attempt => exact safe_attempt hc h
  | raise => exact safe_raise hc h
  | raiseError => exact safe_raiseNew hc (by decide) h
  | raiseTypeError => exact safe_raiseNew hc (by decide) h
  | assertion => exact safe_assertion hc h
  | exclusiveOr => exact safe_exclusiveOr hc h
  | negation => exact safe_negation hc h
  | complement => exact safe_complement hc h
  | macroDefinition => exact safe_macroDefinition hc hname h
  | operator op => exact safe_operation hc op h

/-- A label taken off the operands is one of them. -/
theorem Builtin.split_of_every (form : Builtin) {args : List Sexp} (h : EveryIn p args) :
    Q (form.split args).1 ∧ EveryIn p (form.split args).2 := by
  unfold Builtin.split
  split
  · unfold splitLabel
    split
    · split
      · exact ⟨hc.symbol h.1, h.2⟩
      · exact ⟨hc.empty, h⟩
    · exact ⟨hc.empty, h⟩
  · exact ⟨hc.empty, h⟩

theorem Builtin.safe_layout {form : Builtin} (hname : p (.symbol form.name)) {args : List Sexp}
    (h : EveryIn p args) : (form.layout args).Safe p Q := by
  obtain ⟨hlabel, hitems⟩ := form.split_of_every hc h
  unfold Builtin.layout
  dsimp only
  split
  · exact safe_reject _
  · exact Builtin.safe_body hc hname hlabel hitems

omit hc in
/-- A literal, which has no name in front of its items. -/
theorem Builtin.safe_literal (form : Builtin) (hlabel : form.takesLabel = false) {items : List Sexp}
    (hbody : (form.body "" items).Safe p Q) : (form.layout items).Safe p Q := by
  unfold Builtin.layout Builtin.split
  rw [hlabel]
  dsimp only
  split
  · exact safe_reject _
  · exact hbody

/-- **Every expression has a safe layout.** -/
theorem Sexp.safe_layout {e : Sexp} (h : e.Every p) : e.layout.Safe p Q := by
  unfold Sexp.layout
  split
  · exact hc.atom (every_number.mp h) rfl
  · exact hc.atom (every_symbol.mp h) rfl
  · exact hc.atom (every_string.mp h) rfl
  · exact hc.atom (every_regex.mp h) rfl
  · exact Builtin.arrayOf.safe_literal rfl (safe_arrayOf hc (everyIn_of_group h))
  · exact Builtin.objectOf.safe_literal rfl (safe_objectOf hc (everyIn_of_group h))
  · exact safe_reject _
  · obtain ⟨hhead, hargs⟩ := everyIn_of_group h
    split
    · split
      · rename_i form hform
        cases Builtin.name_of_ofName? hform
        exact Builtin.safe_layout hc (every_symbol.mp hhead) hargs
      · rename_i name _ _
        have hcallee : (Layout.text name).Safe p Q := hc.symbol hhead
        exact safe_call hc hcallee hargs
    · exact safe_call hc (safe_operand hhead) hargs
    · exact safe_reject _

/-- **Lowering keeps the property**, whatever macros made of such atoms are known. -/
theorem Composes.kept : (composing p Q).Kept where
  layout := fun _ he => Sexp.safe_layout hc he
  expansion := by
    intro name m args expanded hm hcall hexpand
    have hform : (group .round (.symbol name :: args)).Every p := hcall
    have hargs : EveryIn p args := (everyIn_of_group hform).2
    have hexpanded := Macro.expand_every hc.closed (everyIn_iff.mp hm) (everyIn_iff.mp hargs) hexpand
    exact ⟨hexpanded, fun _ htext => htext⟩

end Composition

end FormScript
