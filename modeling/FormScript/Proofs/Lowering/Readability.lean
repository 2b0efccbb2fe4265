import FormScript.Proofs.Lowering.Fragment
import FormScript.Proofs.Number.RoundTrip
import FormScript.Session

/-!
# Unique readability

The text of an expression of the fragment determines the expression. Nothing separates the parts of
such a text but their own characters, so the statement that can be proved by induction on expressions is
stronger: no text of the fragment can be read off the front of another one in two ways (`Unique`), when
what follows does not go on with a name or a number.

Four kinds of expressions are told apart by their first character. A form in parentheses is a sign with
its operand, or it is led by its first operand; what follows the first operand is its `Tail`, and the
four kinds of tails are told apart by their first character again. Of two operators one may begin like
the other, but the run of operator characters is as long as the operator, or by one minus longer when a
negative number follows, and no operator is another one with a minus behind it.
-/

namespace FormScript

/-! ## Runs of characters -/

/-- The text does not go on with characters of the class. -/
def Stops (keep : Char → Bool) (u : List Char) : Prop := ∀ c, u.head? = some c → keep c = false

theorem stops_cons {keep : Char → Bool} {c : Char} (h : keep c = false) (u : List Char) :
    Stops keep (c :: u) := by
  intro d hd
  cases hd
  exact h

theorem takeWhile_run {keep : Char → Bool} {w u : List Char} (hw : ∀ c ∈ w, keep c = true)
    (hu : Stops keep u) : (w ++ u).takeWhile keep = w := by
  rw [List.takeWhile_append_of_pos hw]
  cases u with
  | nil => simp
  | cons c u => simp [hu c rfl]

/-- A run of characters of a class ends where the class does. -/
theorem run_unique {keep : Char → Bool} {w w' u v : List Char} (hw : ∀ c ∈ w, keep c = true)
    (hw' : ∀ c ∈ w', keep c = true) (hu : Stops keep u) (hv : Stops keep v)
    (h : w ++ u = w' ++ v) : w = w' ∧ u = v := by
  have hrun : w = w' := by
    rw [← takeWhile_run hw hu, h, takeWhile_run hw' hv]
  subst hrun
  exact ⟨rfl, List.append_cancel_left h⟩

/-- The characters that a name or a number can go on with. -/
def goesOn (c : Char) : Bool := isNameChar c || decide (c = '.')

/-- The text may follow an expression. -/
def Ends (u : List Char) : Prop := Stops goesOn u

theorem ends_cons {c : Char} (h : goesOn c = false) (u : List Char) : Ends (c :: u) := stops_cons h u

theorem goesOn_of_isDigit {c : Char} (h : c.isDigit = true) : goesOn c = true := by
  simp [goesOn, isNameChar, Char.isAlphanum, h]

theorem goesOn_of_isName {name : String} (h : isName name = true) :
    ∀ c ∈ name.toList, goesOn c = true := by
  obtain ⟨first, tail, hlist, _, hchars⟩ := isName_cases h
  intro c hc
  rw [hlist] at hc
  rw [goesOn, hchars c hc, Bool.true_or]

/-- The characters that operators are spelt with. -/
def isOperatorChar (c : Char) : Bool := "&|=!+-*/%<>^,".toList.contains c

theorem not_goesOn_of_operator {c : Char} (h : isOperatorChar c = true) : goesOn c = false := by
  have hmem : c ∈ ['&', '|', '=', '!', '+', '-', '*', '/', '%', '<', '>', '^', ','] := by
    simpa [isOperatorChar] using h
  simp only [List.mem_cons, List.not_mem_nil, or_false] at hmem
  rcases hmem with rfl | rfl | rfl | rfl | rfl | rfl | rfl | rfl | rfl | rfl | rfl | rfl | rfl <;>
    decide

theorem not_operator_of_isDigit {c : Char} (h : c.isDigit = true) : isOperatorChar c = false := by
  cases hc : isOperatorChar c with
  | false => rfl
  | true =>
    have hstop := not_goesOn_of_operator hc
    rw [goesOn_of_isDigit h] at hstop
    cases hstop

/-! ## How expressions begin -/

/-- A positive number begins with a digit, -/
theorem spell_positive {rank : Fin Number.infinityRank} (hrank : 0 < rank.val) :
    ∃ first tail, spell (.number (.finite false rank)) = first :: tail ∧ first.isDigit = true
      ∧ ∀ c ∈ first :: tail, goesOn c = true := by
  obtain ⟨n, hn, hsign, hword, _⟩ := Number.text_numeral false hrank
  obtain ⟨first, tail, hwhole⟩ := List.exists_cons_of_ne_nil hn.whole_ne
  have hchars : n.word = first :: (tail ++ n.fractionWord) := by
    rw [Numeral.word, hsign, hwhole]
    rfl
  have hdigit : first.isDigit = true := by
    apply hn.whole_digits
    rw [hwhole]
    exact List.mem_cons_self
  refine ⟨first, tail ++ n.fractionWord, ?_, hdigit, ?_⟩
  · rw [spell, hword, hchars]
  · intro c hc
    have hc' : c ∈ n.whole ++ n.fractionWord := by
      rw [hwhole]
      exact hc
    rcases hn.digital.mem_unsigned hc' with rfl | hc
    · decide
    · exact goesOn_of_isDigit hc

/-- and a negative one is a minus in front of a positive one. -/
theorem spell_negative {rank : Fin Number.infinityRank} (hrank : 0 < rank.val) :
    spell (.number (.finite true rank)) = '-' :: spell (.number (.finite false rank)) := by
  rw [spell, spell, Number.text_negative hrank]

/-- How the text of an expression begins. -/
def Begins : Sexp → Char → Prop
  | .number (.finite true _), c => c = '-'
  | .number _, c => c.isDigit = true
  | .symbol _, c => isNameChar c = true ∧ c.isDigit = false
  | .group .square _, c => c = '['
  | .group .round _, c => c = '('
  | _, _ => False

theorem Fragment.begins {e : Sexp} (h : Fragment e) : ∃ c cs, spell e = c :: cs ∧ Begins e c := by
  cases h with
  | @number negative rank hrank =>
    cases negative with
    | true => exact ⟨'-', _, spell_negative hrank, rfl⟩
    | false =>
      obtain ⟨first, tail, hspell, hdigit, _⟩ := spell_positive hrank
      exact ⟨first, tail, hspell, hdigit⟩
  | @name name hname =>
    obtain ⟨first, tail, hlist, hdigit, hchars⟩ := isName_cases hname
    exact ⟨first, tail, by rw [spell, hlist], hchars first List.mem_cons_self, hdigit⟩
  | array => exact ⟨'[', _, spell_array _, rfl⟩
  | operation => exact ⟨'(', _, spell_operation _ _ _, rfl⟩
  | negation => exact ⟨'(', _, spell_negation _, rfl⟩
  | complement => exact ⟨'(', _, spell_complement _, rfl⟩
  | conditional => exact ⟨'(', _, spell_conditional _ _ _, rfl⟩
  | index => exact ⟨'(', _, spell_index _ _, rfl⟩
  | call _ hnone _ => exact ⟨'(', _, spell_call hnone _, rfl⟩
  | applied => exact ⟨'(', _, spell_applied _ _, rfl⟩

/-- The kind of the expressions that begin with a character. -/
def kindOf (c : Char) : String :=
  if c = '-' ∨ c.isDigit = true then "number"
  else if c = '[' then "array"
  else if c = '(' then "form"
  else "symbol"

theorem Begins.kind {e : Sexp} {c : Char} (h : Begins e c) : e.kind = kindOf c := by
  unfold Begins at h
  split at h
  · rw [h]
    rfl
  · simp [kindOf, h, Sexp.kind]
  · have hminus : c ≠ '-' := ne_of_class h.1 (by decide)
    have hsquare : c ≠ '[' := ne_of_class h.1 (by decide)
    have hround : c ≠ '(' := ne_of_class h.1 (by decide)
    simp [kindOf, hminus, hsquare, hround, h.2, Sexp.kind]
  · rw [h]
    rfl
  · rw [h]
    rfl
  · exact h.elim

/-- Only a negative number begins with a character of operators. -/
theorem Begins.negative {e : Sexp} {c : Char} (h : Begins e c) (hc : isOperatorChar c = true) :
    c = '-' ∧ ∃ rank, e = .number (.finite true rank) := by
  have hstop := not_goesOn_of_operator hc
  unfold Begins at h
  split at h
  · exact ⟨h, _, rfl⟩
  · rw [goesOn_of_isDigit h] at hstop
    cases hstop
  · simp [goesOn, h.1] at hstop
  · rw [h] at hc
    exact absurd hc (by decide)
  · rw [h] at hc
    exact absurd hc (by decide)
  · exact h.elim

/-- No expression begins with a space, a closing bracket or the sign of the complement. -/
theorem not_begins {c : Char} (hc : c ∈ [' ', ')', ']', '!']) (e : Sexp) : ¬ Begins e c := by
  simp only [List.mem_cons, List.not_mem_nil, or_false] at hc
  rcases hc with rfl | rfl | rfl | rfl <;> unfold Begins <;> split <;> decide

theorem Fragment.spell_ne {e : Sexp} (he : Fragment e) {c : Char} (hc : c ∈ [' ', ')', ']', '!'])
    (u v : List Char) : spell e ++ u ≠ c :: v := by
  intro h
  obtain ⟨d, ds, hspell, hbegins⟩ := he.begins
  rw [hspell] at h
  cases h
  exact not_begins hc e hbegins

theorem Fragment.same_kind {s t : Sexp} (hs : Fragment s) (ht : Fragment t) {u v : List Char}
    (h : spell s ++ u = spell t ++ v) : s.kind = t.kind := by
  obtain ⟨c, cs, hspell, hbegins⟩ := hs.begins
  obtain ⟨d, ds, hspell', hbegins'⟩ := ht.begins
  rw [hspell, hspell'] at h
  have hc : c = d := (List.cons.inj h).1
  rw [hbegins.kind, hbegins'.kind, hc]

/-! ## Operators and what follows them -/

namespace Operator

theorem isOperatorChar_of_mem (op : Operator) : ∀ c ∈ op.spelling.toList, isOperatorChar c = true :=
  List.all_eq_true.mp (by cases op <;> decide)

theorem spelling_ne_nil (op : Operator) : op.spelling.toList ≠ [] := by
  cases op <;> decide

theorem find_spelling (op : Operator) :
    all.find? (fun other => other.spelling.toList = op.spelling.toList) = some op := by
  cases op <;> decide

theorem spelling_injective {op op' : Operator} (h : op.spelling.toList = op'.spelling.toList) :
    op = op' := by
  have hfind := find_spelling op
  rw [h, find_spelling op'] at hfind
  exact (Option.some.inj hfind).symm

theorem ends_in_minus (op : Operator) : op.spelling.toList.getLast? = some '-' → op = .sub := by
  cases op <;> decide

/-- No operator is another one with a minus behind it. -/
theorem spelling_ne_minus (op op' : Operator) : op.spelling.toList ≠ op'.spelling.toList ++ ['-'] := by
  intro h
  have hsub : op = .sub := ends_in_minus op (by rw [h]; simp)
  subst hsub
  have hnil : [] ++ ['-'] = op'.spelling.toList ++ ['-'] := h
  exact spelling_ne_nil op' (List.append_cancel_right hnil).symm

end Operator

/-- The space that may stand in front of an operand. -/
def IsGap (gap : List Char) : Prop := gap = [] ∨ gap = [' ']

theorem behindOperator_eq (spelling : String) (x : List Char) :
    ∃ gap, IsGap gap ∧ behindOperator spelling x = spelling.toList ++ (gap ++ x) := by
  unfold behindOperator Wrap.afterOperator
  split
  · exact ⟨[' '], .inr rfl, by simp⟩
  · exact ⟨[], .inl rfl, by simp⟩

theorem behindComplement_eq (x : List Char) :
    ∃ gap, IsGap gap ∧ behindComplement x = '!' :: (gap ++ x) := by
  unfold behindComplement Wrap.afterKeyword
  split
  · exact ⟨[], .inl rfl, by simp⟩
  · exact ⟨[' '], .inr rfl, by simp⟩

theorem gap_unique {gap gap' : List Char} (hgap : IsGap gap) (hgap' : IsGap gap') {e e' : Sexp}
    (he : Fragment e) (he' : Fragment e') {u v : List Char}
    (h : gap ++ (spell e ++ u) = gap' ++ (spell e' ++ v)) : spell e ++ u = spell e' ++ v := by
  rcases hgap with rfl | rfl <;> rcases hgap' with rfl | rfl
  · exact h
  · exact absurd h (he.spell_ne (by decide) u _)
  · exact absurd h.symm (he'.spell_ne (by decide) v _)
  · exact List.tail_eq_of_cons_eq h

/-- The characters of operators in front of an operand are those of the operator, and the minus of a
    negative number. -/
theorem takeWhile_operator (op : Operator) {e : Sexp} (he : Fragment e) (u : List Char) :
    ∃ minus, (minus = [] ∨ minus = ['-'])
      ∧ (behindOperator op.spelling (spell e) ++ u).takeWhile isOperatorChar
        = op.spelling.toList ++ minus := by
  obtain ⟨gap, hgap, hbehind⟩ := behindOperator_eq op.spelling (spell e)
  obtain ⟨c, cs, hspell, hbegins⟩ := he.begins
  have hchars := op.isOperatorChar_of_mem
  rw [hbehind]
  rcases hgap with rfl | rfl
  · cases hc : isOperatorChar c with
    | false =>
      refine ⟨[], .inl rfl, ?_⟩
      rw [hspell, List.append_assoc, List.append_nil]
      exact takeWhile_run hchars (stops_cons hc _)
    | true =>
      -- a digit follows the minus
      obtain ⟨_, rank, rfl⟩ := hbegins.negative hc
      cases he with
      | number hrank =>
        obtain ⟨first, tail, hpositive, hdigit, _⟩ := spell_positive hrank
        have hfirst : isOperatorChar first = false := not_operator_of_isDigit hdigit
        refine ⟨['-'], .inr rfl, ?_⟩
        have hrun : ∀ c ∈ op.spelling.toList ++ ['-'], isOperatorChar c = true := by
          intro c hc
          rcases List.mem_append.mp hc with hc | hc
          · exact hchars c hc
          · rw [List.mem_singleton.mp hc]
            decide
        rw [← takeWhile_run hrun (stops_cons hfirst (tail ++ u)), spell_negative hrank, hpositive]
        simp
  · refine ⟨[], .inl rfl, ?_⟩
    rw [List.append_assoc, List.append_nil]
    exact takeWhile_run hchars (stops_cons (by decide) _)

/-- The operator and its operand can be read off a text. -/
theorem operator_unique {op op' : Operator} {e e' : Sexp} (he : Fragment e) (he' : Fragment e')
    {u v : List Char} (h : behindOperator op.spelling (spell e) ++ u
      = behindOperator op'.spelling (spell e') ++ v) : op = op' ∧ spell e ++ u = spell e' ++ v := by
  obtain ⟨minus, hminus, hrun⟩ := takeWhile_operator op he u
  obtain ⟨minus', hminus', hrun'⟩ := takeWhile_operator op' he' v
  have hsame : op.spelling.toList ++ minus = op'.spelling.toList ++ minus' := by
    rw [← hrun, ← hrun', h]
  have hop : op = op' := by
    rcases hminus with rfl | rfl <;> rcases hminus' with rfl | rfl
    · exact Operator.spelling_injective (List.append_cancel_right hsame)
    · rw [List.append_nil] at hsame
      exact absurd hsame (Operator.spelling_ne_minus op op')
    · rw [List.append_nil] at hsame
      exact absurd hsame.symm (Operator.spelling_ne_minus op' op)
    · exact Operator.spelling_injective (List.append_cancel_right hsame)
  subst hop
  obtain ⟨gap, hgap, hbehind⟩ := behindOperator_eq op.spelling (spell e)
  obtain ⟨gap', hgap', hbehind'⟩ := behindOperator_eq op.spelling (spell e')
  rw [hbehind, hbehind', List.append_assoc, List.append_assoc, List.append_assoc,
    List.append_assoc] at h
  exact ⟨rfl, gap_unique hgap hgap' he he' (List.append_cancel_left h)⟩

/-! ## Forms led by their first operand -/

/-- What follows the first operand of a form, or the head of a call. -/
inductive Tail where
  | operation (op : Operator) (second : Sexp) (rest : List Sexp)
  | choice (yes no : Sexp)
  | keys (key : Sexp) (rest : List Sexp)
  | arguments (args : List Sexp)

namespace Tail

/-- The form with the tail behind its first operand. -/
def onto (lead : Sexp) : Tail → Sexp
  | .operation op second rest => .group .round (.symbol op.name :: lead :: second :: rest)
  | .choice yes no => .group .round [.symbol Builtin.conditional.name, lead, yes, no]
  | .keys key rest => .group .round (.symbol Builtin.index.name :: lead :: key :: rest)
  | .arguments args => .group .round (lead :: args)

/-- The expressions in a tail. -/
def parts : Tail → List Sexp
  | .operation _ second rest => second :: rest
  | .choice yes no => [yes, no]
  | .keys key rest => key :: rest
  | .arguments args => args

def text : Tail → List Char
  | .operation op second rest => spellEach (behindOperator op.spelling) (second :: rest)
  | .choice yes no => '?' :: (spell yes ++ (':' :: spell no))
  | .keys key rest => spellEach bracketed (key :: rest)
  | .arguments args => '(' :: (spellSeparated args ++ [')'])

end Tail

/-- A form of the fragment that is led by its first operand. -/
structure Led (lead : Sexp) (tail : Tail) : Prop where
  first : Fragment lead
  parts : ∀ e ∈ tail.parts, Fragment e
  spells : spell (tail.onto lead) = '(' :: (spell lead ++ tail.text ++ [')'])

theorem led_operation {op : Operator} {first second : Sexp} {rest : List Sexp}
    (hfirst : Fragment first) (hothers : ∀ e ∈ second :: rest, Fragment e) :
    Led first (.operation op second rest) := ⟨hfirst, hothers, spell_operation op _ _⟩

theorem led_conditional {condition yes no : Sexp} (hcondition : Fragment condition)
    (hyes : Fragment yes) (hno : Fragment no) : Led condition (.choice yes no) := by
  refine ⟨hcondition, ?_, spell_conditional _ _ _⟩
  simp [Tail.parts, hyes, hno]

theorem led_index {target key : Sexp} {rest : List Sexp} (htarget : Fragment target)
    (hkeys : ∀ e ∈ key :: rest, Fragment e) : Led target (.keys key rest) :=
  ⟨htarget, hkeys, spell_index _ _⟩

theorem led_call {name : String} {args : List Sexp} (hname : isName name = true)
    (hnone : Builtin.ofName? name = none) (hargs : ∀ e ∈ args, Fragment e) :
    Led (.symbol name) (.arguments args) := ⟨.name hname, hargs, spell_call hnone _⟩

theorem led_applied {items args : List Sexp} (hhead : Fragment (.group .round items))
    (hargs : ∀ e ∈ args, Fragment e) : Led (.group .round items) (.arguments args) :=
  ⟨hhead, hargs, spell_applied _ _⟩

/-- The expressions of the fragment, with those led by their first operand taken together. -/
inductive View : Sexp → Prop where
  | number {negative : Bool} {rank : Fin Number.infinityRank} : 0 < rank.val →
      View (.number (.finite negative rank))
  | name {name : String} : isName name = true → View (.symbol name)
  | array {items : List Sexp} : (∀ e ∈ items, Fragment e) → View (.group .square items)
  | negation {e : Sexp} : Fragment e → View (.group .round [.symbol Builtin.negation.name, e])
  | complement {e : Sexp} : Fragment e → View (.group .round [.symbol Builtin.complement.name, e])
  | led {lead : Sexp} {tail : Tail} : Led lead tail → View (tail.onto lead)

theorem Fragment.view {e : Sexp} (h : Fragment e) : View e := by
  cases h with
  | number hrank => exact .number hrank
  | name hname => exact .name hname
  | array hitems => exact .array hitems
  | operation hfirst hothers => exact .led (led_operation hfirst hothers)
  | negation he => exact .negation he
  | complement he => exact .complement he
  | conditional hcondition hyes hno => exact .led (led_conditional hcondition hyes hno)
  | index htarget hkeys => exact .led (led_index htarget hkeys)
  | call hname hnone hargs => exact .led (led_call hname hnone hargs)
  | applied hhead hargs => exact .led (led_applied hhead hargs)

@[simp]
theorem Tail.kind_onto (lead : Sexp) (tail : Tail) : (tail.onto lead).kind = "form" := by
  cases tail <;> rfl

/-! ## Reading an expression off a text -/

/-- No other expression of the fragment can be read off a text that begins with the expression. -/
def Unique (s : Sexp) : Prop :=
  ∀ t u v, Fragment t → Ends u → Ends v → spell s ++ u = spell t ++ v → s = t ∧ u = v

theorem positive_unique {rank rank' : Fin Number.infinityRank} (hrank : 0 < rank.val)
    (hrank' : 0 < rank'.val) {u v : List Char} (hu : Ends u) (hv : Ends v)
    (h : spell (.number (.finite false rank)) ++ u = spell (.number (.finite false rank')) ++ v) :
    rank = rank' ∧ u = v := by
  obtain ⟨first, tail, hspell, _, hrun⟩ := spell_positive hrank
  obtain ⟨first', tail', hspell', _, hrun'⟩ := spell_positive hrank'
  rw [← hspell] at hrun
  rw [← hspell'] at hrun'
  obtain ⟨hsame, huv⟩ := run_unique hrun hrun' hu hv h
  rw [spell, spell] at hsame
  have hnumber := Number.text_injective hrank hrank' hsame
  cases hnumber
  exact ⟨rfl, huv⟩

theorem unique_number {negative : Bool} {rank : Fin Number.infinityRank} (hrank : 0 < rank.val) :
    Unique (.number (.finite negative rank)) := by
  intro t u v ht hu hv h
  have hkind : t.kind = "number" := ((Fragment.number hrank).same_kind ht h).symm
  cases ht.view with
  | @number negative' rank' hrank' =>
    cases negative <;> cases negative'
    · obtain ⟨rfl, huv⟩ := positive_unique hrank hrank' hu hv h
      exact ⟨rfl, huv⟩
    · obtain ⟨first, tail, hspell, hdigit, _⟩ := spell_positive hrank
      rw [hspell, spell_negative hrank'] at h
      cases (List.cons.inj h).1
      cases hdigit
    · obtain ⟨first, tail, hspell, hdigit, _⟩ := spell_positive hrank'
      rw [hspell, spell_negative hrank] at h
      cases (List.cons.inj h).1
      cases hdigit
    · rw [spell_negative hrank, spell_negative hrank'] at h
      obtain ⟨rfl, huv⟩ := positive_unique hrank hrank' hu hv (List.cons.inj h).2
      exact ⟨rfl, huv⟩
  | led _ => simp at hkind
  | _ => simp [Sexp.kind] at hkind

theorem unique_name {name : String} (hname : isName name = true) : Unique (.symbol name) := by
  intro t u v ht hu hv h
  have hkind : t.kind = "symbol" := ((Fragment.name hname).same_kind ht h).symm
  cases ht.view with
  | @name name' hname' =>
    rw [spell, spell] at h
    obtain ⟨hsame, huv⟩ := run_unique (goesOn_of_isName hname) (goesOn_of_isName hname') hu hv h
    exact ⟨by rw [String.toList_inj.mp hsame], huv⟩
  | led _ => simp at hkind
  | _ => simp [Sexp.kind] at hkind

/-! ### Expressions one after the other -/

/-- What leads in the expressions of a chain: it tells where the next one begins, and the expression
    can be read off what it leads in. -/
structure LeadIn (leadIn : List Char → List Char) : Prop where
  begins : ∀ x, ∃ c cs, leadIn x = c :: cs ∧ goesOn c = false ∧ c ≠ ')' ∧ c ≠ ']'
  unique : ∀ {e e' : Sexp} {u v : List Char}, Fragment e → Unique e → Fragment e' → Ends u → Ends v →
    leadIn (spell e) ++ u = leadIn (spell e') ++ v → e = e' ∧ u = v

theorem ends_close {close : Char} (hclose : close = ')' ∨ close = ']') (u : List Char) :
    Ends (close :: u) := by
  rcases hclose with rfl | rfl <;> exact ends_cons (by decide) u

section Chains

variable {leadIn : List Char → List Char} (hleadIn : LeadIn leadIn)
variable {close : Char} (hclose : close = ')' ∨ close = ']')

include hleadIn hclose

theorem LeadIn.ends_each (es : List Sexp) (u : List Char) :
    Ends (spellEach leadIn es ++ close :: u) := by
  cases es with
  | nil =>
    rw [spellEach_nil]
    exact ends_close hclose u
  | cons e es =>
    obtain ⟨c, cs, hbegins, hstop, _⟩ := hleadIn.begins (spell e)
    rw [spellEach_cons, hbegins]
    exact ends_cons hstop _

theorem LeadIn.each_ne_close (e : Sexp) (es : List Sexp) (u v : List Char) :
    spellEach leadIn (e :: es) ++ close :: u ≠ close :: v := by
  intro h
  obtain ⟨c, cs, hbegins, _, hround, hsquare⟩ := hleadIn.begins (spell e)
  rw [spellEach_cons, hbegins] at h
  have hc : c = close := (List.cons.inj h).1
  rcases hclose with rfl | rfl
  · exact hround hc
  · exact hsquare hc

/-- **The expressions of a chain can be read off a text**, up to the bracket that ends the chain. -/
theorem LeadIn.unique_each {es es' : List Sexp} (hes : ∀ e ∈ es, Fragment e)
    (hunique : ∀ e ∈ es, Unique e) (hes' : ∀ e ∈ es', Fragment e) {u v : List Char}
    (h : spellEach leadIn es ++ close :: u = spellEach leadIn es' ++ close :: v) :
    es = es' ∧ u = v := by
  induction es generalizing es' with
  | nil =>
    cases es' with
    | nil => exact ⟨rfl, (List.cons.inj (List.append_cancel_left h)).2⟩
    | cons e' es' =>
      rw [spellEach_nil] at h
      exact absurd h.symm (hleadIn.each_ne_close hclose e' es' v u)
  | cons e es ih =>
    cases es' with
    | nil =>
      rw [spellEach_nil] at h
      exact absurd h (hleadIn.each_ne_close hclose e es u v)
    | cons e' es' =>
      obtain ⟨he, hrest⟩ := List.forall_mem_cons.mp hes
      obtain ⟨hue, hurest⟩ := List.forall_mem_cons.mp hunique
      obtain ⟨he', hrest'⟩ := List.forall_mem_cons.mp hes'
      rw [spellEach_cons, spellEach_cons, List.append_assoc, List.append_assoc] at h
      -- behind the first expression stands the next one or the bracket, and either ends it
      obtain ⟨hsame, hafter⟩ := hleadIn.unique he hue he' (hleadIn.ends_each hclose es u)
        (hleadIn.ends_each hclose es' v) h
      obtain ⟨hsames, huv⟩ := ih hrest hurest hrest' hafter
      exact ⟨by rw [hsame, hsames], huv⟩

end Chains

theorem leadIn_operator (op : Operator) : LeadIn (behindOperator op.spelling) where
  begins := by
    intro x
    obtain ⟨c, cs, hspelling⟩ := List.exists_cons_of_ne_nil op.spelling_ne_nil
    have hc : isOperatorChar c = true :=
      op.isOperatorChar_of_mem c (by rw [hspelling]; exact List.mem_cons_self)
    obtain ⟨gap, _, hbehind⟩ := behindOperator_eq op.spelling x
    exact ⟨c, cs ++ (gap ++ x), by rw [hbehind, hspelling]; rfl, not_goesOn_of_operator hc,
      ne_of_class hc (by decide), ne_of_class hc (by decide)⟩
  unique := by
    intro e e' u v he hue he' hu hv h
    exact hue e' u v he' hu hv (operator_unique he he' h).2

theorem leadIn_complement : LeadIn behindComplement where
  begins := by
    intro x
    obtain ⟨gap, _, hbehind⟩ := behindComplement_eq x
    exact ⟨'!', _, hbehind, by decide, by decide, by decide⟩
  unique := by
    intro e e' u v he hue he' hu hv h
    obtain ⟨gap, hgap, hbehind⟩ := behindComplement_eq (spell e)
    obtain ⟨gap', hgap', hbehind'⟩ := behindComplement_eq (spell e')
    rw [hbehind, hbehind', List.cons_append, List.cons_append, List.append_assoc,
      List.append_assoc] at h
    exact hue e' u v he' hu hv (gap_unique hgap hgap' he he' (List.cons.inj h).2)

theorem leadIn_bracketed : LeadIn bracketed where
  begins := fun _ => ⟨'[', _, rfl, by decide, by decide, by decide⟩
  unique := by
    intro e e' u v he hue he' hu hv h
    rw [bracketed, bracketed, List.cons_append, List.cons_append, List.append_assoc,
      List.append_assoc] at h
    obtain ⟨hsame, hafter⟩ := hue e' _ _ he' (ends_close (.inr rfl) u) (ends_close (.inr rfl) v)
      (List.cons.inj h).2
    exact ⟨hsame, (List.cons.inj hafter).2⟩

theorem leadIn_comma : LeadIn behindComma where
  begins := fun _ => ⟨',', _, rfl, by decide, by decide, by decide⟩
  unique := by
    intro e e' u v he hue he' hu hv h
    exact hue e' u v he' hu hv (List.cons.inj h).2

/-- The expressions of a list can be read off a text, up to the bracket that ends the list. -/
theorem unique_separated {close : Char} (hclose : close = ')' ∨ close = ']') {es es' : List Sexp}
    (hes : ∀ e ∈ es, Fragment e) (hunique : ∀ e ∈ es, Unique e) (hes' : ∀ e ∈ es', Fragment e)
    {u v : List Char} (h : spellSeparated es ++ close :: u = spellSeparated es' ++ close :: v) :
    es = es' ∧ u = v := by
  have hmem : close ∈ [' ', ')', ']', '!'] := by
    rcases hclose with rfl | rfl <;> decide
  cases es with
  | nil =>
    cases es' with
    | nil => exact ⟨rfl, (List.cons.inj (List.append_cancel_left h)).2⟩
    | cons e' es' =>
      rw [spellSeparated_nil, spellSeparated_cons, List.append_assoc] at h
      exact absurd h.symm ((hes' e' List.mem_cons_self).spell_ne hmem _ _)
  | cons e es =>
    obtain ⟨he, hrest⟩ := List.forall_mem_cons.mp hes
    obtain ⟨hue, hurest⟩ := List.forall_mem_cons.mp hunique
    cases es' with
    | nil =>
      rw [spellSeparated_cons, spellSeparated_nil, List.append_assoc] at h
      exact absurd h (he.spell_ne hmem _ _)
    | cons e' es' =>
      obtain ⟨he', hrest'⟩ := List.forall_mem_cons.mp hes'
      rw [spellSeparated_cons, spellSeparated_cons, List.append_assoc, List.append_assoc] at h
      obtain ⟨hsame, hafter⟩ := hue e' _ _ he' (leadIn_comma.ends_each hclose es u)
        (leadIn_comma.ends_each hclose es' v) h
      obtain ⟨hsames, huv⟩ := leadIn_comma.unique_each hclose hrest hurest hrest' hafter
      exact ⟨by rw [hsame, hsames], huv⟩

/-! ### Tails -/

namespace Tail

/-- The four kinds of tails, -/
def sort : Tail → Nat
  | .operation .. => 0
  | .choice .. => 1
  | .keys .. => 2
  | .arguments .. => 3

/-- and the characters that they begin with. -/
def sortOf (c : Char) : Nat := if c = '?' then 1 else if c = '[' then 2 else if c = '(' then 3 else 0

theorem begins (tail : Tail) :
    ∃ c cs, tail.text = c :: cs ∧ goesOn c = false ∧ c ≠ ')' ∧ tail.sort = sortOf c := by
  cases tail with
  | operation op second rest =>
    obtain ⟨c, cs, hspelling⟩ := List.exists_cons_of_ne_nil op.spelling_ne_nil
    have hc : isOperatorChar c = true :=
      op.isOperatorChar_of_mem c (by rw [hspelling]; exact List.mem_cons_self)
    obtain ⟨gap, _, hbehind⟩ := behindOperator_eq op.spelling (spell second)
    have htext : (Tail.operation op second rest).text
        = c :: (cs ++ (gap ++ spell second) ++ spellEach (behindOperator op.spelling) rest) := by
      rw [text, spellEach_cons, hbehind, hspelling]
      rfl
    have hne {d : Char} (hd : isOperatorChar d = false) : c ≠ d := ne_of_class hc hd
    refine ⟨c, _, htext, not_goesOn_of_operator hc, hne (by decide), ?_⟩
    rw [sortOf, if_neg (hne (by decide)), if_neg (hne (by decide)), if_neg (hne (by decide))]
    rfl
  | choice yes no => exact ⟨'?', _, rfl, by decide, by decide, rfl⟩
  | keys key rest => exact ⟨'[', _, by rw [text, spellEach_cons]; rfl, by decide, by decide, rfl⟩
  | arguments args => exact ⟨'(', _, rfl, by decide, by decide, rfl⟩

theorem ends (tail : Tail) (u : List Char) : Ends (tail.text ++ u) := by
  obtain ⟨c, cs, htext, hstop, _⟩ := tail.begins
  rw [htext]
  exact ends_cons hstop _

theorem same_sort {tail tail' : Tail} {u v : List Char} (h : tail.text ++ u = tail'.text ++ v) :
    tail.sort = tail'.sort := by
  obtain ⟨c, cs, htext, _, _, hsort⟩ := tail.begins
  obtain ⟨d, ds, htext', _, _, hsort'⟩ := tail'.begins
  rw [htext, htext'] at h
  have hc : c = d := (List.cons.inj h).1
  rw [hsort, hsort', hc]

/-- **A tail can be read off a text.** -/
theorem unique {tail tail' : Tail} (hparts : ∀ e ∈ tail.parts, Fragment e)
    (hunique : ∀ e ∈ tail.parts, Unique e) (hparts' : ∀ e ∈ tail'.parts, Fragment e)
    {u v : List Char} (h : tail.text ++ ')' :: u = tail'.text ++ ')' :: v) :
    tail = tail' ∧ u = v := by
  have hsort := same_sort h
  cases tail with
  | operation op second rest =>
    cases tail' with
    | operation op' second' rest' =>
      -- the first operand settles which operator it is, for the others too
      have hop : op = op' := by
        rw [text, text, spellEach_cons, spellEach_cons, List.append_assoc, List.append_assoc] at h
        exact (operator_unique (hparts second List.mem_cons_self)
          (hparts' second' List.mem_cons_self) h).1
      subst hop
      obtain ⟨hsame, huv⟩ :=
        (leadIn_operator op).unique_each (.inl rfl) hparts hunique hparts' h
      cases hsame
      exact ⟨rfl, huv⟩
    | _ => simp [sort] at hsort
  | choice yes no =>
    cases tail' with
    | choice yes' no' =>
      have hyes := hunique yes List.mem_cons_self
      have hno := hunique no (List.mem_cons_of_mem _ List.mem_cons_self)
      have hyes' := hparts' yes' List.mem_cons_self
      have hno' := hparts' no' (List.mem_cons_of_mem _ List.mem_cons_self)
      rw [text, text, List.cons_append, List.cons_append, List.append_assoc, List.append_assoc] at h
      obtain ⟨rfl, hcolon⟩ := hyes yes' _ _ hyes' (ends_cons (by decide) _) (ends_cons (by decide) _)
        (List.cons.inj h).2
      obtain ⟨rfl, hclose⟩ := hno no' _ _ hno' (ends_close (.inl rfl) u) (ends_close (.inl rfl) v)
        (List.cons.inj hcolon).2
      exact ⟨rfl, (List.cons.inj hclose).2⟩
    | _ => simp [sort] at hsort
  | keys key rest =>
    cases tail' with
    | keys key' rest' =>
      obtain ⟨hsame, huv⟩ := leadIn_bracketed.unique_each (.inl rfl) hparts hunique hparts' h
      cases hsame
      exact ⟨rfl, huv⟩
    | _ => simp [sort] at hsort
  | arguments args =>
    cases tail' with
    | arguments args' =>
      rw [text, text, List.cons_append, List.cons_append, List.append_assoc, List.append_assoc] at h
      obtain ⟨rfl, hclose⟩ := unique_separated (.inl rfl) hparts hunique hparts' (List.cons.inj h).2
      exact ⟨rfl, (List.cons.inj hclose).2⟩
    | _ => simp [sort] at hsort

end Tail

/-! ### Arrays and forms -/

theorem unique_array {items : List Sexp} (hitems : ∀ e ∈ items, Fragment e)
    (hunique : ∀ e ∈ items, Unique e) : Unique (.group .square items) := by
  intro t u v ht hu hv h
  have hkind : t.kind = "array" := ((Fragment.array hitems).same_kind ht h).symm
  cases ht.view with
  | @array items' hitems' =>
    rw [spell_array, spell_array, List.cons_append, List.cons_append, List.append_assoc, List.append_assoc] at h
    obtain ⟨rfl, huv⟩ := unique_separated (.inr rfl) hitems hunique hitems' (List.cons.inj h).2
    exact ⟨rfl, huv⟩
  | led _ => simp at hkind
  | _ => simp [Sexp.kind] at hkind

/-- A form led by an operand is not a negation: the operand would be a negative number, and its
    digits the operand of the negation, so that nothing is left for the tail. -/
theorem Led.ne_negation {lead : Sexp} {tail : Tail} (h : Led lead tail) {e : Sexp} (he : Fragment e)
    (u v : List Char) :
    spell lead ++ (tail.text ++ ')' :: u) ≠ behindOperator "-" (spell e) ++ ')' :: v := by
  intro hsame
  obtain ⟨c, cs, hspell, hbegins⟩ := h.first.begins
  obtain ⟨gap, hgap, hbehind⟩ := behindOperator_eq "-" (spell e)
  have hminus : behindOperator "-" (spell e) ++ ')' :: v = '-' :: (gap ++ (spell e ++ ')' :: v)) := by
    rw [hbehind]
    simp
  rw [hminus] at hsame
  have hc : c = '-' := by
    rw [hspell] at hsame
    exact (List.cons.inj hsame).1
  obtain ⟨_, rank, rfl⟩ := hbegins.negative (by rw [hc]; decide)
  cases h.first with
  | number hrank =>
    rw [spell_negative hrank] at hsame
    have hoperand := gap_unique (.inl rfl) hgap (.number hrank) he (List.cons.inj hsame).2
    obtain ⟨_, hafter⟩ := unique_number hrank e _ _ he (tail.ends _) (ends_close (.inl rfl) v) hoperand
    obtain ⟨d, ds, htext, _, hclose, _⟩ := tail.begins
    rw [htext] at hafter
    exact hclose (List.cons.inj hafter).1

theorem Led.ne_complement {lead : Sexp} {tail : Tail} (h : Led lead tail) (x u v : List Char) :
    spell lead ++ u ≠ behindComplement x ++ v := by
  obtain ⟨gap, _, hbehind⟩ := behindComplement_eq x
  rw [hbehind]
  exact h.first.spell_ne (by decide) _ _

theorem negation_ne_complement (x y u v : List Char) :
    behindOperator "-" x ++ u ≠ behindComplement y ++ v := by
  obtain ⟨gap, _, hbehind⟩ := behindOperator_eq "-" x
  obtain ⟨gap', _, hbehind'⟩ := behindComplement_eq y
  rw [hbehind, hbehind']
  simp

/-- What stands between the parentheses of two forms with the same text. -/
theorem inside_parens {x y u v : List Char} (h : '(' :: (x ++ [')']) ++ u = '(' :: (y ++ [')']) ++ v) :
    x ++ ')' :: u = y ++ ')' :: v := by
  simpa using h

theorem Led.inside {lead : Sexp} {tail : Tail} (hled : Led lead tail) {y u v : List Char}
    (h : spell (tail.onto lead) ++ u = '(' :: (y ++ [')']) ++ v) :
    spell lead ++ (tail.text ++ ')' :: u) = y ++ ')' :: v := by
  rw [hled.spells] at h
  rw [← List.append_assoc]
  exact inside_parens h

theorem unique_negation {e : Sexp} (he : Fragment e) (hue : Unique e) :
    Unique (.group .round [.symbol Builtin.negation.name, e]) := by
  intro t u v ht hu hv h
  have hkind : t.kind = "form" := ((Fragment.negation he).same_kind ht h).symm
  rw [spell_negation] at h
  cases ht.view with
  | @negation e' he' =>
    rw [spell_negation] at h
    obtain ⟨rfl, hclose⟩ := (leadIn_operator .sub).unique he hue he' (ends_close (.inl rfl) u)
      (ends_close (.inl rfl) v) (inside_parens h)
    exact ⟨rfl, (List.cons.inj hclose).2⟩
  | complement he' =>
    rw [spell_complement] at h
    exact absurd (inside_parens h) (negation_ne_complement _ _ _ _)
  | led hled => exact absurd (hled.inside h.symm) (hled.ne_negation he v u)
  | _ => simp [Sexp.kind] at hkind

theorem unique_complement {e : Sexp} (he : Fragment e) (hue : Unique e) :
    Unique (.group .round [.symbol Builtin.complement.name, e]) := by
  intro t u v ht hu hv h
  have hkind : t.kind = "form" := ((Fragment.complement he).same_kind ht h).symm
  rw [spell_complement] at h
  cases ht.view with
  | negation he' =>
    rw [spell_negation] at h
    exact absurd (inside_parens h).symm (negation_ne_complement _ _ _ _)
  | @complement e' he' =>
    rw [spell_complement] at h
    obtain ⟨rfl, hclose⟩ := leadIn_complement.unique he hue he' (ends_close (.inl rfl) u)
      (ends_close (.inl rfl) v) (inside_parens h)
    exact ⟨rfl, (List.cons.inj hclose).2⟩
  | led hled => exact absurd (hled.inside h.symm) (hled.ne_complement _ _ _)
  | _ => simp [Sexp.kind] at hkind

theorem unique_led {lead : Sexp} {tail : Tail} (hled : Led lead tail) (he : Fragment (tail.onto lead))
    (hlead : Unique lead) (hparts : ∀ e ∈ tail.parts, Unique e) : Unique (tail.onto lead) := by
  intro t u v ht hu hv h
  have hkind := he.same_kind ht h
  rw [tail.kind_onto] at hkind
  cases ht.view with
  | negation he' =>
    rw [spell_negation] at h
    exact absurd (hled.inside h) (hled.ne_negation he' u v)
  | complement he' =>
    rw [spell_complement] at h
    exact absurd (hled.inside h) (hled.ne_complement _ _ _)
  | @led lead' tail' hled' =>
    rw [hled'.spells] at h
    have hinside := hled.inside h
    rw [List.append_assoc] at hinside
    obtain ⟨rfl, htail⟩ := hlead lead' _ _ hled'.first (tail.ends _) (tail'.ends _) hinside
    obtain ⟨rfl, huv⟩ := Tail.unique hled.parts hparts hled'.parts htail
    exact ⟨rfl, huv⟩
  | _ => simp [Sexp.kind] at hkind

/-- **Every expression of the fragment can be read off a text that begins with it.** -/
theorem Fragment.unique {s : Sexp} (h : Fragment s) : Unique s := by
  induction h with
  | number hrank => exact unique_number hrank
  | name hname => exact unique_name hname
  | array hitems ih => exact unique_array hitems ih
  | operation hfirst hothers ihfirst ihothers =>
    exact unique_led (led_operation hfirst hothers) (.operation hfirst hothers) ihfirst ihothers
  | negation he ih => exact unique_negation he ih
  | complement he ih => exact unique_complement he ih
  | conditional hcondition hyes hno ihcondition ihyes ihno =>
    refine unique_led (led_conditional hcondition hyes hno) (.conditional hcondition hyes hno)
      ihcondition ?_
    simp [Tail.parts, ihyes, ihno]
  | index htarget hkeys ihtarget ihkeys =>
    exact unique_led (led_index htarget hkeys) (.index htarget hkeys) ihtarget ihkeys
  | call hname hnone hargs ih =>
    exact unique_led (led_call hname hnone hargs) (.call hname hnone hargs) (unique_name hname) ih
  | applied hhead hargs ihhead ih =>
    exact unique_led (led_applied hhead hargs) (.applied hhead hargs) ihhead ih

/-! ## Lowered texts -/

/-- A session that knows no macro lowers an expression of the fragment to its spelling. -/
theorem lower_eq_spell {a : Session} (ha : a.registry = .empty) {e : Sexp} (he : Fragment e)
    {text : String} (h : (a.lower e).1 = .ok text) : text.toList = spell e := by
  have hknows : spelling.Knows a.registry := ha ▸ spelling.knows_empty
  unfold Session.lower at h
  split at h
  · rename_i lowered state hrun
    cases h
    exact (spelling_kept.lowered he a.state text state hknows hrun).1
  · cases h

/-- **Two expressions of the fragment with the same lowered text are the same**, when no macro is
    known. -/
theorem lowering_unambiguous {a b : Session} (ha : a.registry = .empty) (hb : b.registry = .empty)
    {s t : Sexp} (hs : Fragment s) (ht : Fragment t) {text : String}
    (hstext : (a.lower s).1 = .ok text) (httext : (b.lower t).1 = .ok text) : s = t := by
  have hsame : spell s ++ [] = spell t ++ [] := by
    rw [← lower_eq_spell ha hs hstext, ← lower_eq_spell hb ht httext]
  have hnil : Ends [] := fun c hc => by cases hc
  exact (hs.unique t [] [] ht hnil hnil hsame).1

/-- A difference of a negation and a negative number has a text of its own. -/
theorem lowering_unambiguous_minus :
    let one : Sexp := .number (.finite true ⟨1023 * 2 ^ 52, by decide⟩)
    let e : Sexp := .group .round
      [.symbol "-", .group .round [.symbol "neg", .symbol "a"], one, .group .square [.symbol "b"]]
    ((Session.ofText "").lower e).1 = .ok "((-a)- -1-[b])"
      ∧ ∀ t, Fragment t → ((Session.ofText "").lower t).1 = .ok "((-a)- -1-[b])" → e = t := by
  intro one e
  have he : Fragment e := by
    refine @Fragment.operation .sub _ _ _ (.negation (.name (by decide))) ?_
    intro part hpart
    simp only [List.mem_cons, List.not_mem_nil, or_false] at hpart
    rcases hpart with rfl | rfl
    · exact .number (by decide)
    · refine .array fun item hitem => ?_
      rw [List.mem_singleton.mp hitem]
      exact .name (by decide)
  have htext : ((Session.ofText "").lower e).1 = .ok "((-a)- -1-[b])" :=
    ok_of_toOption (by decide +kernel)
  exact ⟨htext, fun t ht httext => lowering_unambiguous rfl rfl he ht htext httext⟩

end FormScript
