import Mathlib.Data.List.SplitBy
import FormScript.Proofs.Lowering.Contracts
import FormScript.Proofs.Number.RoundTrip

/-!
# Comparisons in macro bodies and in lowered text

A comparison of numbers in a macro body is carried out at once (`Constant.fold?`): it holds if it holds of
every two neighbours. The same form in a program is lowered to `(a<b<c)`, which compares from the left, and
whose first result is a truth value. `Script.value?` reads such a text and carries it out as ECMAScript does.

On two operands both give the same truth value, for every comparison and all finite numbers. From three
operands on they do not: for every number of operands and every comparison that is folded there are
operands on which they differ (`folded_comparisons`).
-/

namespace FormScript

open Lowering

/-! ## The value of a lowered comparison -/

namespace Script

/-- An operand of a comparison, or its result. -/
inductive Value where
  | number (x : Number)
  | truth (b : Bool)
deriving DecidableEq

namespace Value

/-- The value as a number: zero for `false` and one for `true`. -/
def toNumber : Value → Number
  | .number x => x
  | .truth false => .zero false
  | .truth true => .ofNat 1

/-- Equality of the values as numbers. -/
def looselyEqual (a b : Value) : Bool := a.toNumber.equals b.toNumber

/-- Equality of values of one type; values of different types differ. -/
def strictlyEqual : Value → Value → Bool
  | .number x, .number y => x.equals y
  | .truth a, .truth b => decide (a = b)
  | _, _ => false

end Value

/-- The comparison that a sign stands for. -/
def comparison? (sign : String) : Option (Value → Value → Bool) :=
  match sign with
  | "<" => some fun a b => a.toNumber.less b.toNumber
  | ">" => some fun a b => b.toNumber.less a.toNumber
  | "<=" => some fun a b => a.toNumber.atMost b.toNumber
  | ">=" => some fun a b => b.toNumber.atMost a.toNumber
  | "==" => some Value.looselyEqual
  | "===" => some Value.strictlyEqual
  | "!=" => some fun a b => !a.looselyEqual b
  | _ => none

/-- Whether the character belongs to a sign. -/
def isSign (c : Char) : Bool := decide (c = '<') || decide (c = '>') || decide (c = '=') || decide (c = '!')

/-- A text taken apart into signs and what stands between them. -/
def pieces (text : List Char) : List (List Char) := text.splitBy fun a b => isSign a == isSign b

/-- The number that a decimal literal writes, with a minus before it or not. -/
def literal? (word : List Char) : Option Number := (Numeral.ofWord? word).map Numeral.value

/-- A value compared with the first operand, the result with the next one, and so on; all signs are the
    same. -/
def compareOn? (sign : List Char) (rel : Value → Value → Bool) (v : Value) :
    List (List Char) → Option Value
  | [] => some v
  | [_] => none
  | next :: operand :: rest =>
    if next = sign then do
      compareOn? sign rel (.truth (rel v (.number (← literal? operand)))) rest
    else none

/-- The value of operands with signs between them. -/
def compared? : List (List Char) → Option Value
  | first :: sign :: rest => do
    let rel ← comparison? (String.ofList sign)
    let x ← literal? first
    compareOn? sign rel (.number x) (sign :: rest)
  | _ => none

/-- The value of a text that compares numbers, in parentheses. -/
def value? (text : String) : Option Value :=
  if text.toList.head? = some '(' ∧ text.toList.getLast? = some ')' then
    compared? (pieces text.toList.tail.dropLast)
  else none

/-! ### Texts with one sign throughout -/

/-- The characters belong to no sign. -/
def IsWord (word : List Char) : Prop := word ≠ [] ∧ ∀ c ∈ word, isSign c = false

/-- The characters are those of a sign. -/
def IsSign (sign : List Char) : Prop := sign ≠ [] ∧ ∀ c ∈ sign, isSign c = true

theorem pieces_uniform {b : Bool} {word : List Char} (hne : word ≠ []) (h : ∀ c ∈ word, isSign c = b) :
    pieces word = [word] := by
  apply List.splitBy_of_isChain hne
  apply List.Pairwise.isChain
  apply List.pairwise_of_forall_mem_list
  intro c hc d hd
  rw [h c hc, h d hd]
  exact beq_self_eq_true b

/-- Where a sign begins or ends, the text can be taken apart. -/
theorem pieces_append {b : Bool} {first second rest : List Char} (hfirst : ∀ c ∈ first, isSign c = b)
    (hne : second ≠ []) (hsecond : ∀ c ∈ second, isSign c = !b) :
    pieces (first ++ (second ++ rest)) = pieces first ++ pieces (second ++ rest) := by
  apply List.splitBy_append
  intro c hc d hd
  rw [List.head?_append_of_ne_nil _ hne] at hd
  rw [hfirst c (List.mem_of_mem_getLast? hc), hsecond d (List.mem_of_mem_head? hd)]
  cases b <;> rfl

theorem pieces_words {sign first : List Char} (hsign : IsSign sign) (hfirst : IsWord first)
    {words : List (List Char)} (hwords : ∀ word ∈ words, IsWord word) :
    pieces (first ++ words.flatMap fun word => sign ++ word)
      = first :: words.flatMap fun word => [sign, word] := by
  induction words generalizing first with
  | nil =>
    rw [List.flatMap_nil, List.append_nil]
    exact pieces_uniform hfirst.1 hfirst.2
  | cons word words ih =>
    obtain ⟨hword, hrest⟩ := List.forall_mem_cons.mp hwords
    rw [List.flatMap_cons, List.append_assoc, pieces_append hfirst.2 hsign.1 hsign.2,
      pieces_append hsign.2 hword.1 hword.2, pieces_uniform hfirst.1 hfirst.2,
      pieces_uniform hsign.1 hsign.2, ih hword hrest]
    rfl

/-- The value of a number compared with others from the left. -/
def leftToRight (rel : Value → Value → Bool) (v : Value) (xs : List Number) : Value :=
  xs.foldl (fun v x => .truth (rel v (.number x))) v

/-- The first comparison makes a truth value of it. -/
theorem leftToRight_cons (rel : Value → Value → Bool) (v : Value) (x : Number) (xs : List Number) :
    ∃ b, leftToRight rel v (x :: xs) = .truth b := by
  induction xs generalizing v x with
  | nil => exact ⟨rel v (.number x), rfl⟩
  | cons y ys ih => exact ih (.truth (rel v (.number x))) y

theorem compareOn?_words (sign : List Char) (rel : Value → Value → Bool) (v : Value)
    {words : List (List Char)} {xs : List Number} (h : words.map literal? = xs.map some) :
    compareOn? sign rel v (words.flatMap fun word => [sign, word]) = some (leftToRight rel v xs) := by
  induction words generalizing v xs with
  | nil =>
    cases xs with
    | nil => rfl
    | cons x xs => cases h
  | cons word words ih =>
    cases xs with
    | nil => cases h
    | cons x xs =>
      obtain ⟨hword, hwords⟩ := List.cons.inj h
      show (if sign = sign then _ else none) = _
      rw [if_pos rfl, hword]
      exact ih _ hwords

end Script

/-! ## Numbers in lowered text -/

namespace Number

def isFinite : Number → Bool
  | .finite _ _ => true
  | _ => false

/-- The number as its spelling has it, in which zero has no sign. -/
def spelt (x : Number) : Number := if x.isZero then .zero false else x

theorem place?_spelt (x : Number) : x.spelt.place? = x.place? := by
  unfold spelt
  split
  · rename_i hzero
    cases x with
    | nan => cases hzero
    | infinite negative => cases hzero
    | finite negative rank =>
      have hrank : rank.val = 0 := of_decide_eq_true hzero
      cases negative <;> simp [place?, zero, hrank]
  · rfl

theorem not_isSign_of_isDigit {c : Char} (h : c.isDigit = true) : Script.isSign c = false := by
  have hne : ∀ d : Char, d.isDigit = false → decide (c = d) = false := fun d hd =>
    decide_eq_false (ne_of_class h hd)
  simp only [Script.isSign, hne '<' rfl, hne '>' rfl, hne '=' rfl, hne '!' rfl]
  rfl

/-- The spelling of a finite number is a word, and the literal that writes the number. -/
theorem literal?_text {x : Number} (h : x.isFinite = true) :
    Script.IsWord x.text.toList ∧ Script.literal? x.text.toList = some x.spelt := by
  obtain ⟨negative, rank, rfl⟩ : ∃ negative rank, x = finite negative rank := by
    cases x with
    | nan => cases h
    | infinite negative => cases h
    | finite negative rank => exact ⟨negative, rank, rfl⟩
  by_cases hzero : rank.val = 0
  · have htext : (finite negative rank).text.toList = ['0'] := by simp [text, hzero]
    have hspelt : (finite negative rank).spelt = .zero false := by simp [spelt, isZero, hzero]
    have hvalue : Script.literal? ['0'] = some (.zero false) := by decide +kernel
    rw [htext, hspelt]
    refine ⟨⟨List.cons_ne_nil _ _, ?_⟩, hvalue⟩
    intro c hc
    cases List.mem_singleton.mp hc
    rfl
  · obtain ⟨n, hn, _, hchars, hvalue⟩ := text_numeral negative (Nat.pos_of_ne_zero hzero)
    have hspelt : (finite negative rank).spelt = finite negative rank := by simp [spelt, isZero, hzero]
    rw [hchars, hspelt, Script.literal?, hn.ofWord?_word, Option.map_some, hvalue]
    refine ⟨⟨hn.word_ne, ?_⟩, rfl⟩
    intro c hc
    rcases hn.digital.mem_word hc with rfl | rfl | hdigit
    · rfl
    · rfl
    · exact not_isSign_of_isDigit hdigit

end Number

/-! ## Lowering of comparisons -/

namespace Layout

/-- The text of a layout, with `f` for the texts of its operands. -/
def written (f : Sexp → String) : Layout → String
  | .text s => s
  | .operand e => f e
  | .wrap how part => how.apply (part.written f)
  | .join how first second => how.apply (first.written f) (second.written f)
  | .reject _ => ""
  | .define _ => ""

/-- Rendering where lowering the operands changes nothing. -/
theorem render_eq_written {lower : Sexp → Lowering String} {f : Sexp → String} {s : State} {L : Layout}
    (h : ∀ demand ∈ L.demands, ∃ e, demand = .lower e ∧ lower e s = (.ok (f e), s)) :
    L.render lower s = (.ok (L.written f), s) := by
  induction L with
  | text t => rfl
  | operand e =>
    obtain ⟨e', hdemand, hlower⟩ := h (.lower e) (List.mem_singleton_self _)
    cases hdemand
    exact hlower
  | wrap how part ih => exact bind_of_ok (ih h)
  | join how first second ihfirst ihsecond =>
    have hfirst := ihfirst fun demand hmem => h demand (List.mem_append_left _ hmem)
    have hsecond := ihsecond fun demand hmem => h demand (List.mem_append_right _ hmem)
    exact (bind_of_ok hfirst).trans (bind_of_ok hsecond)
  | reject fault =>
    obtain ⟨e, hdemand, _⟩ := h (.stop fault) (List.mem_singleton_self _)
    cases hdemand
  | define m =>
    obtain ⟨e, hdemand, _⟩ := h (.define m) (List.mem_singleton_self _)
    cases hdemand

theorem toList_written_concat (f : Sexp → String) (parts : List Layout) :
    ((concat parts).written f).toList = parts.flatMap fun part => (part.written f).toList := by
  fun_induction concat parts with
  | case1 => rfl
  | case2 part => simp
  | case3 part next rest ih =>
    rw [written, Joint.apply, String.toList_append, ih, List.flatMap_cons (x := part)]

end Layout

/-- The comparisons among the operators are spelt with signs. -/
theorem Operator.isSign_spelling {op : Operator} {rel : Script.Value → Script.Value → Bool}
    (hop : Script.comparison? op.spelling = some rel) : Script.IsSign op.spelling.toList := by
  have hall : ∀ op ∈ Operator.all, (Script.comparison? op.spelling).isSome = true →
      op.spelling.toList ≠ [] ∧ op.spelling.toList.all Script.isSign = true := by
    decide +kernel
  obtain ⟨hne, hsign⟩ := hall op op.mem_all (Option.isSome_of_eq_some hop)
  exact ⟨hne, List.all_eq_true.mp hsign⟩

/-- A sign is not run together with what follows it. -/
theorem Wrap.afterOperator_of_isSign {spelling : String} (h : Script.IsSign spelling.toList) (t : String) :
    afterOperator spelling t = spelling ++ t := by
  have hapart : runTogether spelling t = false := by
    unfold runTogether
    split
    · rename_i a b ha hb
      have hsign := h.2 a (List.mem_of_getLast? ha)
      have hplus : a ≠ '+' := ne_of_class hsign rfl
      have hminus : a ≠ '-' := ne_of_class hsign rfl
      simp [hplus, hminus]
    · rfl
  rw [afterOperator, hapart]
  rfl

theorem Sexp.lowered_number {s : State} (h : s.depth < maxLowering) (x : Number) :
    (Sexp.number x).lowered s = (.ok x.text, s) := by
  rw [Sexp.lowered_of_no_call h rfl]
  rfl

/-- A comparison as it is written: the operands with the sign between two neighbours, in parentheses. -/
def comparisonText (sign : String) (x : Number) (xs : List Number) : List Char :=
  '(' :: (x.text.toList ++ (xs.flatMap fun n => sign.toList ++ n.text.toList) ++ [')'])

theorem Operator.written_numbers {op : Operator} (hsign : Script.IsSign op.spelling.toList) (x : Number)
    (xs : List Number) :
    ((Forms.operation op ((x :: xs).map .number)).written Sexp.text).toList
      = comparisonText op.spelling x xs := by
  simp only [List.map_cons, Forms.operation, Layout.parens, Layout.toList_written_concat,
    List.flatMap_cons, List.flatMap_nil, List.flatMap_map, Layout.written, Wrap.apply,
    Wrap.afterOperator_of_isSign hsign, String.toList_append, Sexp.text]
  simp [comparisonText]

/-- **The lowered text of a comparison of numbers.** -/
theorem Operator.lowered_numbers {op : Operator} (hsign : Script.IsSign op.spelling.toList) {s : State}
    (hroom : s.depth + 1 < maxLowering) (hname : s.registry.get? op.name = none) (x y : Number)
    (rest : List Number) :
    ∃ text : String, text.toList = comparisonText op.spelling x (y :: rest)
      ∧ ((Builtin.operator op).call ((x :: y :: rest).map .number)).lowered s = (.ok text, s) := by
  have hlayout : (Builtin.operator op).layout ((x :: y :: rest).map .number)
      = Forms.operation op ((x :: y :: rest).map .number) :=
    Builtin.layout_of_met (by simp [Builtin.split, Builtin.takesLabel, Builtin.arity])
  have hdemands : ∀ demand ∈ (Forms.operation op ((x :: y :: rest).map .number)).demands,
      ∃ e, demand = .lower e ∧ e.lowered { s with depth := s.depth + 1 }
        = (.ok e.text, { s with depth := s.depth + 1 }) := by
    intro demand hmem
    rw [List.map_cons, Forms.demands_operation, ← List.map_cons] at hmem
    obtain ⟨e, he, rfl⟩ := List.mem_map.mp hmem
    obtain ⟨n, _, rfl⟩ := List.mem_map.mp he
    exact ⟨_, rfl, Sexp.lowered_number hroom n⟩
  refine ⟨_, Operator.written_numbers hsign x (y :: rest), ?_⟩
  rw [Builtin.lowered_call_eq _ _ (by omega) hname, hlayout, nested,
    Layout.render_eq_written hdemands]
  rfl

/-! ## The two values -/

namespace Script

/-- A comparison does not see the sign of a zero. -/
theorem comparison?_spelt {sign : String} {rel : Value → Value → Bool} (hrel : comparison? sign = some rel)
    (v : Value) (x : Number) :
    rel v (.number x.spelt) = rel v (.number x) ∧ rel (.number x.spelt) v = rel (.number x) v := by
  have hright : ∀ r a, Number.compareBy r a x.spelt = Number.compareBy r a x := by
    intro r a
    simp only [Number.compareBy, x.place?_spelt]
  have hleft : ∀ r a, Number.compareBy r x.spelt a = Number.compareBy r x a := by
    intro r a
    simp only [Number.compareBy, x.place?_spelt]
  unfold comparison? at hrel
  split at hrel
  case h_1 | h_3 | h_5 =>
    cases hrel
    exact ⟨hright _ _, hleft _ _⟩
  case h_2 | h_4 =>
    -- `>` and `>=` are `<` and `<=` the other way round
    cases hrel
    exact ⟨hleft _ _, hright _ _⟩
  case h_6 =>
    cases hrel
    cases v with
    | truth b => exact ⟨rfl, rfl⟩
    | number y => exact ⟨hright _ y, hleft _ y⟩
  case h_7 =>
    cases hrel
    exact ⟨congrArg not (hright _ _), congrArg not (hleft _ _)⟩
  case h_8 => cases hrel

theorem leftToRight_spelt {sign : String} {rel : Value → Value → Bool} (hrel : comparison? sign = some rel)
    (v : Value) (xs : List Number) : leftToRight rel v (xs.map Number.spelt) = leftToRight rel v xs := by
  induction xs generalizing v with
  | nil => rfl
  | cons x xs ih =>
    show leftToRight rel (.truth (rel v (.number x.spelt))) (xs.map Number.spelt) = _
    rw [(comparison?_spelt hrel v x).1, ih]
    rfl

/-- The written comparison has the value of comparing its numbers from the left. -/
theorem value?_comparisonText {sign : String} {rel : Value → Value → Bool}
    (hrel : comparison? sign = some rel) (hsign : IsSign sign.toList) {x y : Number} {rest : List Number}
    (hfinite : ∀ n ∈ x :: y :: rest, n.isFinite = true) {text : String}
    (htext : text.toList = comparisonText sign x (y :: rest)) :
    value? text = some (leftToRight rel (.number x) (y :: rest)) := by
  obtain ⟨hx, hrest⟩ := List.forall_mem_cons.mp hfinite
  have hwords : ∀ word ∈ (y :: rest).map fun n => n.text.toList, IsWord word := by
    intro word hmem
    obtain ⟨n, hn, rfl⟩ := List.mem_map.mp hmem
    exact (Number.literal?_text (hrest n hn)).1
  have hliterals : ((y :: rest).map fun n => n.text.toList).map literal?
      = ((y :: rest).map Number.spelt).map some := by
    rw [List.map_map, List.map_map]
    apply List.map_congr_left
    intro n hn
    exact (Number.literal?_text (hrest n hn)).2
  have hpieces := pieces_words hsign (Number.literal?_text hx).1 hwords
  have hinner : text.toList.tail.dropLast = x.text.toList
      ++ ((y :: rest).map fun n => n.text.toList).flatMap fun word => sign.toList ++ word := by
    rw [htext, comparisonText, List.tail_cons, List.dropLast_concat, List.flatMap_map]
  have hends : text.toList.head? = some '(' ∧ text.toList.getLast? = some ')' := by
    rw [htext, comparisonText]
    refine ⟨rfl, ?_⟩
    rw [← List.cons_append]
    exact List.getLast?_concat
  rw [value?, if_pos hends, hinner, hpieces]
  show (do
    let rel ← comparison? (String.ofList sign.toList)
    let first ← literal? x.text.toList
    compareOn? sign.toList rel (.number first) _) = _
  rw [String.ofList_toList, hrel, (Number.literal?_text hx).2]
  show compareOn? sign.toList rel (.number x.spelt)
    (((y :: rest).map fun n => n.text.toList).flatMap fun word => [sign.toList, word]) = _
  rw [compareOn?_words _ _ _ hliterals, leftToRight_spelt hrel]
  -- only the sign of a zero at the very beginning is left
  show some (leftToRight rel (.truth (rel (.number x.spelt) (.number y))) rest) = _
  rw [(comparison?_spelt hrel (.number y) x).2]
  rfl

end Script

theorem Sexp.numbers?_map (ns : List Number) : Sexp.numbers? (ns.map .number) = some ns := by
  induction ns with
  | nil => rfl
  | cons n ns ih =>
    rw [List.map_cons, numbers?, ih]
    rfl

/-- Whether the comparison holds of every two neighbours. -/
def allNeighbours (rel : Script.Value → Script.Value → Bool) (ns : List Number) : Bool :=
  Constant.chained (fun a b => rel (.number a) (.number b)) ns

/-- **What a comparison of numbers is folded to.** -/
theorem Operator.fold?_numbers {op : Operator} {rel : Script.Value → Script.Value → Bool}
    (hop : Script.comparison? op.spelling = some rel) {x y : Number} {rest : List Number}
    (htwo : op = .unequal → rest = []) :
    Constant.fold? op.name ((x :: y :: rest).map .number)
      = some (.ofBool (allNeighbours rel (x :: y :: rest))) := by
  have hfold : Constant.fold? op.name ((x :: y :: rest).map .number)
      = Constant.ofNumbers? op.name x (y :: rest) := by
    unfold Constant.fold?
    rw [Sexp.numbers?_map]
  rw [hfold]
  cases op with
  | less | greater | atMost | atLeast | equal | same =>
    cases hop
    rfl
  | unequal =>
    cases hop
    rw [htwo rfl]
    show some (Sexp.ofBool !x.equals y) = some (.ofBool ((!x.equals y) && true))
    rw [Bool.and_true]
  | and | or | add | sub | mul | div | rem | addTo | subFrom | mulBy | divBy | remBy | shiftLeft
  | shiftRight | shiftUnsigned | bitAnd | bitOr | bitXor | inTurn => cases hop

/-! ## Three operands and more -/

/-- The comparison of `a` and `b` gives `first`. That truth value compared with `b` gives the opposite, and
    so does the opposite; but if `a` is related to `b`, so is `b` to itself. -/
structure Diverges (rel : Script.Value → Script.Value → Bool) (a b : Number) (first : Bool) : Prop where
  once : rel (.number a) (.number b) = first
  neighbours : first = true → rel (.number b) (.number b) = true
  again : rel (.truth first) (.number b) = !first
  on : rel (.truth !first) (.number b) = !first

namespace Diverges

variable {rel : Script.Value → Script.Value → Bool} {a b : Number} {first : Bool}

theorem allNeighbours_eq (h : Diverges rel a b first) (m : Nat) :
    allNeighbours rel (a :: b :: List.replicate m b) = first := by
  have hunfold : allNeighbours rel (a :: b :: List.replicate m b)
      = (rel (.number a) (.number b) && allNeighbours rel (b :: List.replicate m b)) := rfl
  rw [hunfold, h.once]
  cases first with
  | false => rfl
  | true =>
    rw [Bool.true_and]
    induction m with
    | zero => rfl
    | succ m ih =>
      show (rel (.number b) (.number b) && allNeighbours rel (b :: List.replicate m b)) = true
      rw [h.neighbours rfl, Bool.true_and, ih rfl]

theorem leftToRight_eq (h : Diverges rel a b first) (m : Nat) :
    Script.leftToRight rel (.number a) (b :: b :: List.replicate m b) = .truth !first := by
  show Script.leftToRight rel (.truth (rel (.truth (rel (.number a) (.number b))) (.number b)))
    (List.replicate m b) = _
  rw [h.once, h.again]
  induction m with
  | zero => rfl
  | succ m ih =>
    show Script.leftToRight rel (.truth (rel (.truth !first) (.number b))) (List.replicate m b) = _
    rw [h.on, ih]

end Diverges

/-- **Every folded comparison diverges.** -/
theorem Operator.exists_diverges {op : Operator} {rel : Script.Value → Script.Value → Bool}
    (hop : Script.comparison? op.spelling = some rel) (hne : op ≠ .unequal) :
    ∃ a b first, a.isFinite = true ∧ b.isFinite = true ∧ Diverges rel a b first := by
  cases op with
  | less | atMost =>
    cases hop
    -- three is not less than two, but a truth value is
    refine ⟨.ofNat 3, .ofNat 2, false, ?_, ?_, ?_, ?_, ?_, ?_⟩ <;> decide +kernel
  | greater | atLeast =>
    cases hop
    refine ⟨(Number.ofNat 2).negate, (Number.ofNat 1).negate, false, ?_, ?_, ?_, ?_, ?_, ?_⟩ <;>
      decide +kernel
  | equal | same =>
    cases hop
    -- two is equal to two, but no truth value is
    refine ⟨.ofNat 2, .ofNat 2, true, ?_, ?_, ?_, ?_, ?_, ?_⟩ <;> decide +kernel
  | unequal => exact absurd rfl hne
  | and | or | add | sub | mul | div | rem | addTo | subFrom | mulBy | divBy | remBy | shiftLeft
  | shiftRight | shiftUnsigned | bitAnd | bitOr | bitXor | inTurn => cases hop

/-- The comparison of the numbers is folded to `folded`, and the text it is lowered to has the value
    `written`. -/
structure Compared (op : Operator) (ns : List Number) (s : State) (folded written : Bool) : Prop where
  fold : Constant.fold? op.name (ns.map .number) = some (.ofBool folded)
  lowered : ∃ text, ((Builtin.operator op).call (ns.map .number)).lowered s = (.ok text, s)
    ∧ Script.value? text = some (.truth written)

section Compared

variable {op : Operator} {rel : Script.Value → Script.Value → Bool}
  (hop : Script.comparison? op.spelling = some rel) {s : State} (hroom : s.depth + 1 < maxLowering)
  (hname : s.registry.get? op.name = none)

include hop hroom hname

theorem compared_of_finite {x y : Number} {rest : List Number}
    (hfinite : ∀ n ∈ x :: y :: rest, n.isFinite = true) (htwo : op = .unequal → rest = []) {b : Bool}
    (hvalue : Script.leftToRight rel (.number x) (y :: rest) = .truth b) :
    Compared op (x :: y :: rest) s (allNeighbours rel (x :: y :: rest)) b := by
  have hsign := Operator.isSign_spelling hop
  obtain ⟨text, htext, hlowered⟩ := Operator.lowered_numbers hsign hroom hname x y rest
  refine ⟨Operator.fold?_numbers hop htwo, text, hlowered, ?_⟩
  rw [Script.value?_comparisonText hop hsign hfinite htext, hvalue]

/-- **Folded comparisons.** Let a comparison be lowered where no macro has taken its name and there is room
    for its operands. On two finite numbers the fold and the lowered text have the same truth value. On
    three or more, where only `!=` is not folded, the fold says whether the comparison holds of every two
    neighbours, while the text compares from the left, with truth values as zero and one or as values
    of another type; and for every number of operands there are some on which the two differ. -/
theorem folded_comparisons :
    (∀ x y : Number, x.isFinite = true → y.isFinite = true → ∃ b, Compared op [x, y] s b b)
    ∧ (op ≠ .unequal →
      (∀ (x y : Number) (rest : List Number), (∀ n ∈ x :: y :: rest, n.isFinite = true) →
        ∃ written, Script.leftToRight rel (.number x) (y :: rest) = .truth written
          ∧ Compared op (x :: y :: rest) s (allNeighbours rel (x :: y :: rest)) written)
      ∧ ∀ k, 3 ≤ k → ∃ ns : List Number, ns.length = k ∧ (∀ n ∈ ns, n.isFinite = true)
          ∧ ∃ b, Compared op ns s b (!b)) := by
  constructor
  · intro x y hx hy
    have hfinite : ∀ n ∈ [x, y], n.isFinite = true := by simp [hx, hy]
    have hcompared : Compared op [x, y] s (allNeighbours rel [x, y]) (rel (.number x) (.number y)) :=
      compared_of_finite hop hroom hname hfinite (fun _ => rfl) rfl
    have hneighbours : allNeighbours rel [x, y] = rel (.number x) (.number y) := Bool.and_true _
    rw [hneighbours] at hcompared
    exact ⟨_, hcompared⟩
  · intro hne
    have hfolded : ∀ rest : List Number, op = .unequal → rest = [] := fun _ h => absurd h hne
    constructor
    · intro x y rest hfinite
      obtain ⟨written, hwritten⟩ := Script.leftToRight_cons rel (.number x) y rest
      exact ⟨written, hwritten, compared_of_finite hop hroom hname hfinite (hfolded rest) hwritten⟩
    · intro k hk
      obtain ⟨a, b, first, ha, hb, hdiverges⟩ := Operator.exists_diverges hop hne
      obtain ⟨m, rfl⟩ : ∃ m, k = m + 3 := ⟨k - 3, by omega⟩
      have hfinite : ∀ n ∈ a :: b :: List.replicate (m + 1) b, n.isFinite = true := by
        simp [ha, hb, List.mem_replicate]
      refine ⟨a :: b :: List.replicate (m + 1) b, by simp, hfinite, first, ?_⟩
      have hcompared := compared_of_finite hop hroom hname hfinite (hfolded _)
        (hdiverges.leftToRight_eq m)
      rw [hdiverges.allNeighbours_eq] at hcompared
      exact hcompared

end Compared

theorem folded_comparisons_less :
    State.initial.depth + 1 < maxLowering ∧ State.initial.registry.get? Operator.less.name = none
    ∧ (∃ b, Compared .less [.ofNat 1, .ofNat 2] .initial b b)
    ∧ ∃ ns : List Number, ns.length = 3 ∧ (∀ n ∈ ns, n.isFinite = true)
        ∧ ∃ b, Compared .less ns .initial b (!b) := by
  have hroom : State.initial.depth + 1 < maxLowering := by decide
  have hless : Script.comparison? Operator.less.spelling
      = some fun a b => a.toNumber.less b.toNumber := rfl
  obtain ⟨htwo, hthree⟩ := folded_comparisons hless hroom rfl
  refine ⟨hroom, rfl, htwo _ _ ?_ ?_, (hthree ?_).2 3 (Nat.le_refl 3)⟩
  · decide +kernel
  · decide +kernel
  · decide

/-- Three numbers in descending order: the fold of `(< 3 2 1)` is `false`, and its text is true. -/
theorem descending_numbers_differ :
    ((Builtin.operator .less).call ([3, 2, 1].map fun n => .number (.ofNat n))).lowered .initial
      = (.ok "(3<2<1)", .initial)
    ∧ Script.value? "(3<2<1)" = some (.truth true)
    ∧ Constant.fold? Operator.less.name ([3, 2, 1].map fun n => .number (.ofNat n))
      = some (.ofBool false) := by
  have hless : Script.comparison? Operator.less.spelling
      = some fun a b => a.toNumber.less b.toNumber := rfl
  refine ⟨?_, ?_, ?_⟩
  · obtain ⟨text, htext, hlowered⟩ := Operator.lowered_numbers (Operator.isSign_spelling hless)
      (show State.initial.depth + 1 < maxLowering by decide) rfl (.ofNat 3) (.ofNat 2) [.ofNat 1]
    have hchars : comparisonText Operator.less.spelling (.ofNat 3) [.ofNat 2, .ofNat 1]
        = "(3<2<1)".toList := by decide +kernel
    rw [String.toList_inj.mp (htext.trans hchars)] at hlowered
    exact hlowered
  · decide +kernel
  · have hfold := Operator.fold?_numbers hless (x := .ofNat 3) (y := .ofNat 2)
      (fun h => absurd h (by decide) : Operator.less = .unequal → [Number.ofNat 1] = [])
    have hfalse : allNeighbours (fun a b => a.toNumber.less b.toNumber)
        [.ofNat 3, .ofNat 2, .ofNat 1] = false := by decide +kernel
    rw [hfalse] at hfold
    exact hfold

end FormScript
