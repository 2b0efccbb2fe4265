import FormScript.Lowering.Form
import FormScript.Proofs.Lowering.Promises

/-!
# The text of arithmetic and calls

`Fragment` is the part of the language that is lowered to plain expressions: numbers, names, arrays,
operators, choices between values, members by their keys, and calls. `spell` is the text of such an
expression, said without layouts: the operands of a form in parentheses, the first one in front and
each of the others behind what leads it in.

The main statement is `spelling_kept`: what lowering gives for an expression of the fragment is its
spelling, when no macro is known.
-/

namespace FormScript

/-! ## The fragment -/

/-- The characters of names. -/
def isNameChar (c : Char) : Bool := c.isAlphanum || decide (c = '_') || decide (c = '$')

/-- A name: a word of letters, digits, `_` and `$` that does not begin with a digit. -/
def isName (name : String) : Bool :=
  match name.toList with
  | [] => false
  | first :: tail => !first.isDigit && isNameChar first && tail.all isNameChar

theorem isName_cases {name : String} (h : isName name = true) :
    ∃ first tail, name.toList = first :: tail ∧ first.isDigit = false
      ∧ ∀ c ∈ first :: tail, isNameChar c = true := by
  unfold isName at h
  split at h
  · cases h
  · rename_i first tail hlist
    simp only [Bool.and_eq_true, Bool.not_eq_true', List.all_eq_true] at h
    exact ⟨first, tail, hlist, h.1.1, List.forall_mem_cons.mpr ⟨h.1.2, h.2⟩⟩

/-- Expressions built from numbers other than zero, names, arrays, operators and calls. -/
inductive Fragment : Sexp → Prop where
  | number {negative : Bool} {rank : Fin Number.infinityRank} : 0 < rank.val →
      Fragment (.number (.finite negative rank))
  | name {name : String} : isName name = true → Fragment (.symbol name)
  | array {items : List Sexp} : (∀ e ∈ items, Fragment e) → Fragment (.group .square items)
  | operation {op : Operator} {first second : Sexp} {rest : List Sexp} : Fragment first →
      (∀ e ∈ second :: rest, Fragment e) →
      Fragment (.group .round (.symbol op.name :: first :: second :: rest))
  | negation {e : Sexp} : Fragment e → Fragment (.group .round [.symbol Builtin.negation.name, e])
  | complement {e : Sexp} : Fragment e →
      Fragment (.group .round [.symbol Builtin.complement.name, e])
  | conditional {condition yes no : Sexp} : Fragment condition → Fragment yes → Fragment no →
      Fragment (.group .round [.symbol Builtin.conditional.name, condition, yes, no])
  | index {target key : Sexp} {rest : List Sexp} : Fragment target →
      (∀ e ∈ key :: rest, Fragment e) →
      Fragment (.group .round (.symbol Builtin.index.name :: target :: key :: rest))
  | call {name : String} {args : List Sexp} : isName name = true → Builtin.ofName? name = none →
      (∀ e ∈ args, Fragment e) → Fragment (.group .round (.symbol name :: args))
  | applied {items args : List Sexp} : Fragment (.group .round items) → (∀ e ∈ args, Fragment e) →
      Fragment (.group .round (.group .round items :: args))

/-! ## Spellings -/

/-- An operand behind an operator. -/
def behindOperator (spelling : String) (operand : List Char) : List Char :=
  (Wrap.afterOperator spelling (String.ofList operand)).toList

/-- An operand behind the sign of the complement. -/
def behindComplement (operand : List Char) : List Char :=
  (Wrap.afterKeyword "!" (String.ofList operand)).toList

/-- A key in brackets. -/
def bracketed (key : List Char) : List Char := '[' :: (key ++ [']'])

/-- An element behind another. -/
def behindComma (element : List Char) : List Char := ',' :: element

/-- Texts separated by commas. -/
def separated : List (List Char) → List Char
  | [] => []
  | text :: texts => text ++ texts.flatMap behindComma

/-- What stands between the parentheses of a form with a name at its head, from the texts of its
    operands. -/
def formText (name : String) (form : Option Builtin) (operands : List (List Char)) : List Char :=
  match form, operands with
  | some (.operator op), first :: rest => first ++ rest.flatMap (behindOperator op.spelling)
  | some .negation, [operand] => behindOperator "-" operand
  | some .complement, [operand] => behindComplement operand
  | some .conditional, [condition, yes, no] => condition ++ ('?' :: (yes ++ (':' :: no)))
  | some .index, target :: keys => target ++ keys.flatMap bracketed
  | none, args => name.toList ++ ('(' :: (separated args ++ [')']))
  | _, _ => []

mutual

/-- The text of an expression of the fragment. -/
def spell : Sexp → List Char
  | .number x => x.text.toList
  | .symbol name => name.toList
  | .group .square items => '[' :: (separated (spellAll items) ++ [']'])
  | .group .round (.symbol name :: operands) =>
    '(' :: (formText name (Builtin.ofName? name) (spellAll operands) ++ [')'])
  | .group .round (head :: args) =>
    '(' :: (spell head ++ ('(' :: (separated (spellAll args) ++ [')'])) ++ [')'])
  | _ => []

/-- The texts of expressions, each by itself. -/
def spellAll : List Sexp → List (List Char)
  | [] => []
  | e :: es => spell e :: spellAll es

end

/-- Expressions one after the other, each behind what leads it in. -/
def spellEach (leadIn : List Char → List Char) (es : List Sexp) : List Char :=
  (spellAll es).flatMap leadIn

/-- Expressions separated by commas. -/
def spellSeparated (es : List Sexp) : List Char := separated (spellAll es)

theorem spellEach_nil (leadIn : List Char → List Char) : spellEach leadIn [] = [] := by
  rw [spellEach, spellAll, List.flatMap_nil]

theorem spellEach_cons (leadIn : List Char → List Char) (e : Sexp) (es : List Sexp) :
    spellEach leadIn (e :: es) = leadIn (spell e) ++ spellEach leadIn es := by
  rw [spellEach, spellAll, List.flatMap_cons, spellEach]

theorem spellSeparated_nil : spellSeparated [] = [] := by
  rw [spellSeparated, spellAll, separated]

theorem spellSeparated_cons (e : Sexp) (es : List Sexp) :
    spellSeparated (e :: es) = spell e ++ spellEach behindComma es := by
  rw [spellSeparated, spellAll, separated, spellEach]

theorem Operator.mem_all (op : Operator) : op ∈ Operator.all := by
  cases op <;> decide

theorem Builtin.mem_all (form : Builtin) : form ∈ Builtin.all := by
  cases form with
  | operator op => exact List.mem_append_right _ (List.mem_map_of_mem op.mem_all)
  | _ => exact List.mem_append_left _ (by decide)

/-- The built-in form of the name of a built-in form. -/
theorem Builtin.ofName?_name (form : Builtin) : Builtin.ofName? form.name = some form := by
  have hall : ∀ form ∈ Builtin.all, Builtin.ofName? form.name = some form := by decide +kernel
  exact hall form form.mem_all

theorem spell_array (items : List Sexp) :
    spell (.group .square items) = '[' :: (spellSeparated items ++ [']']) := by
  rw [spell, spellSeparated]

/-- A form with the name of a built-in form at its head. -/
theorem spell_builtin (form : Builtin) (operands : List Sexp) :
    spell (.group .round (.symbol form.name :: operands))
      = '(' :: (formText form.name (some form) (spellAll operands) ++ [')']) := by
  rw [spell, Builtin.ofName?_name]

theorem spell_operation (op : Operator) (first : Sexp) (rest : List Sexp) :
    spell (.group .round (.symbol op.name :: first :: rest))
      = '(' :: (spell first ++ spellEach (behindOperator op.spelling) rest ++ [')']) := by
  rw [show op.name = (Builtin.operator op).name from rfl, spell_builtin, spellAll]
  rfl

theorem spell_negation (e : Sexp) : spell (.group .round [.symbol Builtin.negation.name, e])
    = '(' :: (behindOperator "-" (spell e) ++ [')']) := by
  rw [spell_builtin, spellAll, spellAll]
  rfl

theorem spell_complement (e : Sexp) : spell (.group .round [.symbol Builtin.complement.name, e])
    = '(' :: (behindComplement (spell e) ++ [')']) := by
  rw [spell_builtin, spellAll, spellAll]
  rfl

theorem spell_conditional (condition yes no : Sexp) :
    spell (.group .round [.symbol Builtin.conditional.name, condition, yes, no])
      = '(' :: (spell condition ++ ('?' :: (spell yes ++ (':' :: spell no))) ++ [')']) := by
  rw [spell_builtin, spellAll, spellAll, spellAll, spellAll]
  rfl

theorem spell_index (target : Sexp) (keys : List Sexp) :
    spell (.group .round (.symbol Builtin.index.name :: target :: keys))
      = '(' :: (spell target ++ spellEach bracketed keys ++ [')']) := by
  rw [spell_builtin, spellAll]
  rfl

theorem spell_call {name : String} (hnone : Builtin.ofName? name = none) (args : List Sexp) :
    spell (.group .round (.symbol name :: args))
      = '(' :: (spell (.symbol name) ++ ('(' :: (spellSeparated args ++ [')'])) ++ [')']) := by
  rw [spell, spell, hnone]
  rfl

theorem spell_applied (items args : List Sexp) :
    spell (.group .round (.group .round items :: args))
      = '(' :: (spell (.group .round items) ++ ('(' :: (spellSeparated args ++ [')'])) ++ [')']) := by
  rw [spell, spellSeparated]
  simp

/-! ## Lowering gives the spelling -/

/-- Expressions of the fragment are lowered to their spelling, if no macro is known. -/
def spelling : Promise where
  admits := Fragment
  keeps _ := False
  gives e text := text.toList = spell e

namespace Layout

/-- The text of the layout is `cs`. -/
def Gives (L : Layout) (cs : List Char) : Prop := L.Ensures spelling fun text => text.toList = cs

theorem gives_text {s : String} {cs : List Char} (h : s.toList = cs) : (text s).Gives cs := h

theorem gives_operand {e : Sexp} (h : Fragment e) : (operand e).Gives (spell e) :=
  ⟨h, fun _ hs => hs⟩

theorem gives_adjacent {first second : Layout} {cs ds : List Char} (hfirst : first.Gives cs)
    (hsecond : second.Gives ds) : (join .adjacent first second).Gives (cs ++ ds) := by
  refine hfirst.mono fun s hs => hsecond.mono fun t ht => ?_
  show (s ++ t).toList = cs ++ ds
  rw [String.toList_append, hs, ht]

theorem gives_wrap {how : Wrap} {f : List Char → List Char} {part : Layout} {cs : List Char}
    (hhow : ∀ s : String, (how.apply s).toList = f s.toList) (h : part.Gives cs) :
    (wrap how part).Gives (f cs) := by
  refine h.mono fun s hs => ?_
  show (how.apply s).toList = f cs
  rw [hhow, hs]

theorem gives_concat_cons {part : Layout} {parts : List Layout} {cs ds : List Char}
    (hpart : part.Gives cs) (hparts : (concat parts).Gives ds) :
    (concat (part :: parts)).Gives (cs ++ ds) := by
  cases parts with
  | nil =>
    have hnil : ds = [] := (show "".toList = ds from hparts).symm
    rw [hnil, List.append_nil]
    exact hpart
  | cons next rest => exact gives_adjacent hpart hparts

theorem gives_concat_nil : (concat []).Gives [] := rfl

theorem gives_concat_map {f : Sexp → Layout} {leadIn : List Char → List Char} {es : List Sexp}
    (h : ∀ e ∈ es, (f e).Gives (leadIn (spell e))) : (concat (es.map f)).Gives (spellEach leadIn es) := by
  induction es with
  | nil =>
    rw [spellEach_nil]
    exact gives_concat_nil
  | cons e es ih =>
    obtain ⟨he, hes⟩ := List.forall_mem_cons.mp h
    rw [spellEach_cons]
    exact gives_concat_cons he (ih hes)

theorem gives_between {open_ close_ : String} {o c : Char} (ho : open_.toList = [o])
    (hc : close_.toList = [c]) {part : Layout} {cs : List Char} (h : part.Gives cs) :
    (concat [text open_, part, text close_]).Gives (o :: (cs ++ [c])) := by
  have hclose := gives_concat_cons (gives_text hc) gives_concat_nil
  exact gives_concat_cons (gives_text ho) (gives_concat_cons h hclose)

theorem gives_parens {part : Layout} {cs : List Char} (h : part.Gives cs) :
    (parens part).Gives ('(' :: (cs ++ [')'])) := gives_between rfl rfl h

theorem gives_brackets {part : Layout} {cs : List Char} (h : part.Gives cs) :
    (brackets part).Gives ('[' :: (cs ++ [']'])) := gives_between rfl rfl h

theorem gives_operands {es : List Sexp} (h : ∀ e ∈ es, Fragment e) :
    (operands "," es).Gives (spellSeparated es) := by
  cases es with
  | nil =>
    rw [spellSeparated_nil]
    exact gives_text rfl
  | cons e es =>
    induction es generalizing e with
    | nil =>
      rw [spellSeparated_cons, spellEach_nil, List.append_nil]
      exact gives_operand (h e List.mem_cons_self)
    | cons next rest ih =>
      obtain ⟨he, hrest⟩ := List.forall_mem_cons.mp h
      have hcomma : (text ",").Gives [','] := gives_text rfl
      have hall := gives_adjacent (gives_operand he) (gives_adjacent hcomma (ih next hrest))
      rw [spellSeparated_cons] at hall
      rw [spellSeparated_cons, spellEach_cons]
      exact hall

end Layout

open Layout

theorem gives_call {callee : Layout} {cs : List Char} (hcallee : callee.Gives cs) {args : List Sexp}
    (hargs : ∀ e ∈ args, Fragment e) :
    (Forms.call callee args).Gives
      ('(' :: (cs ++ ('(' :: (spellSeparated args ++ [')'])) ++ [')'])) := by
  have hlist := gives_concat_cons (gives_parens (gives_operands hargs)) gives_concat_nil
  rw [List.append_nil] at hlist
  exact gives_parens (gives_concat_cons hcallee hlist)

theorem toList_afterOperator (spelling s : String) :
    (Wrap.afterOperator spelling s).toList = behindOperator spelling s.toList := by
  rw [behindOperator, String.ofList_toList]

theorem toList_afterComplement (s : String) :
    (Wrap.afterKeyword "!" s).toList = behindComplement s.toList := by
  rw [behindComplement, String.ofList_toList]

theorem gives_operation (op : Operator) {first : Sexp} {rest : List Sexp} (hfirst : Fragment first)
    (hrest : ∀ e ∈ rest, Fragment e) :
    (Forms.operation op (first :: rest)).Gives
      ('(' :: (spell first ++ spellEach (behindOperator op.spelling) rest ++ [')'])) := by
  refine gives_parens (gives_concat_cons (gives_operand hfirst) (gives_concat_map fun e he => ?_))
  exact gives_wrap (toList_afterOperator op.spelling) (gives_operand (hrest e he))

theorem gives_index {target : Sexp} {keys : List Sexp} (htarget : Fragment target)
    (hkeys : ∀ e ∈ keys, Fragment e) :
    (Forms.index (target :: keys)).Gives
      ('(' :: (spell target ++ spellEach bracketed keys ++ [')'])) := by
  have hindices : (Forms.indices keys).Gives (spellEach bracketed keys) :=
    gives_concat_map fun e he => gives_brackets (gives_operand (hkeys e he))
  have hlast := gives_concat_cons hindices gives_concat_nil
  rw [List.append_nil] at hlast
  exact gives_parens (gives_concat_cons (gives_operand htarget) hlast)

theorem gives_conditional {condition yes no : Sexp} (hcondition : Fragment condition)
    (hyes : Fragment yes) (hno : Fragment no) :
    (Forms.conditional [condition, yes, no]).Gives
      ('(' :: (spell condition ++ ('?' :: (spell yes ++ (':' :: spell no))) ++ [')'])) := by
  have hquestion : (text "?").Gives ['?'] := gives_text rfl
  have hcolon : (text ":").Gives [':'] := gives_text rfl
  exact gives_parens (gives_adjacent (gives_operand hcondition) (gives_adjacent hquestion
    (gives_adjacent (gives_operand hyes) (gives_adjacent hcolon (gives_operand hno)))))

/-- A built-in form whose contract is met has the layout of its body. -/
theorem layout_of_builtin (form : Builtin) (args : List Sexp) (hlabel : form.takesLabel = false)
    (harity : form.arity.violation? args.length = none) :
    (Sexp.group .round (.symbol form.name :: args)).layout = form.body "" args := by
  simp only [Sexp.layout, Builtin.ofName?_name, Builtin.layout, Builtin.split, hlabel,
    Bool.false_eq_true, if_false, harity]

/-- At least two operands are enough for a form that takes two or more. -/
theorem atLeast_two (n : Nat) : (Arity.atLeast 2).violation? (n + 2) = none := by
  simp [Arity.violation?, Arity.atLeast]

/-- **The layout of an expression of the fragment gives its spelling.** -/
theorem Fragment.gives_layout {e : Sexp} (h : Fragment e) : e.layout.Gives (spell e) := by
  cases h with
  | @number negative rank hrank =>
    rw [spell]
    exact gives_text (by rw [Sexp.text])
  | @name name hname =>
    rw [spell]
    exact gives_text (by rw [Sexp.text])
  | @array items hitems =>
    rw [spell_array]
    exact gives_brackets (gives_operands hitems)
  | @operation op first second rest hfirst hothers =>
    rw [spell_operation, show op.name = (Builtin.operator op).name from rfl,
      layout_of_builtin (.operator op) (first :: second :: rest) rfl (atLeast_two rest.length)]
    exact gives_operation op hfirst hothers
  | @negation e he =>
    rw [spell_negation, layout_of_builtin .negation _ rfl rfl]
    exact gives_parens (gives_wrap (toList_afterOperator "-") (gives_operand he))
  | @complement e he =>
    rw [spell_complement, layout_of_builtin .complement _ rfl rfl]
    exact gives_parens (gives_wrap toList_afterComplement (gives_operand he))
  | @conditional condition yes no hcondition hyes hno =>
    rw [spell_conditional, layout_of_builtin .conditional _ rfl rfl]
    exact gives_conditional hcondition hyes hno
  | @index target key rest htarget hkeys =>
    rw [spell_index, layout_of_builtin .index (target :: key :: rest) rfl (atLeast_two rest.length)]
    exact gives_index htarget hkeys
  | @call name args hname hnone hargs =>
    have hlayout : (Sexp.group .round (.symbol name :: args)).layout = Forms.call name args := by
      simp only [Sexp.layout, hnone]
    rw [spell_call hnone, hlayout, spell]
    exact gives_call (gives_text rfl) hargs
  | @applied items args hhead hargs =>
    rw [spell_applied]
    exact gives_call (gives_operand hhead) hargs

/-- **An expression of the fragment is lowered to its spelling**, if no macro is known. -/
theorem spelling_kept : spelling.Kept where
  layout := fun _ he => he.gives_layout
  expansion := fun _ _ _ _ hm => absurd hm id

end FormScript
