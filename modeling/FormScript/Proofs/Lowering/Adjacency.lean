import FormScript.Proofs.Lowering.Openings
import FormScript.Proofs.Lowering.Promises
import FormScript.Session

/-!
# Operators and their operands side by side

In the text of an operation an operator may be followed at once by an operand, and two characters that
stand side by side may be read as one sign: `++` and `--` as an increment and a decrement, `//` and `/*` as
the beginning of a comment. A space is put in front of an operand that begins with the plus or the minus of
its operator (`Wrap.runTogether`). So a change of sign never runs together with its operand, and of the infix
operators only three can (`operators_fuse_iff`): `+`, `-` and `/` with themselves, where an operand between
two of them leaves no text; and `/` with a regular expression or a symbol that begins with a slash or a star.
-/

namespace FormScript

open Lowering

/-! ## Signs read as one -/

/-- Characters that are read as one sign if they stand side by side. -/
def fusing : List (Char × Char) := [('+', '+'), ('-', '-'), ('/', '/'), ('/', '*')]

/-- The end of an operator and what stands behind it are read as one sign. -/
def Fuses (operator behind : List Char) : Prop :=
  ∃ a b, operator.getLast? = some a ∧ behind.head? = some b ∧ (a, b) ∈ fusing

theorem fuses_cons (operator : List Char) (b : Char) (behind : List Char) :
    Fuses operator (b :: behind) ↔ ∃ a, operator.getLast? = some a ∧ (a, b) ∈ fusing := by
  simp [Fuses]

theorem runTogether_iff {spelling operand : String} : Wrap.runTogether spelling operand = true
    ↔ ∃ a, spelling.toList.getLast? = some a ∧ operand.toList.head? = some a ∧ (a = '+' ∨ a = '-') := by
  unfold Wrap.runTogether Wrap.firstChar?
  cases spelling.toList.getLast? with
  | none => simp
  | some a =>
    cases operand.toList.head? with
    | none => simp
    | some b =>
      simp only [Bool.and_eq_true, Bool.or_eq_true, decide_eq_true_eq, Option.some.injEq]
      constructor
      · rintro ⟨rfl, ha⟩
        exact ⟨_, rfl, rfl, ha⟩
      · rintro ⟨_, rfl, rfl, ha⟩
        exact ⟨rfl, ha⟩

/-- The space between an operator and an operand. -/
def spacing (spelling operand : String) : List Char :=
  if Wrap.runTogether spelling operand then [' '] else []

theorem behindOperator_eq_spacing (spelling operand : String) :
    behindOperator spelling operand.toList
      = spelling.toList ++ (spacing spelling operand ++ operand.toList) := by
  rw [← toList_afterOperator, Wrap.afterOperator, spacing]
  split
  · simp
  · simp

/-! ## Operands in turn -/

/-- What became of an operand: the expression that its macro calls have led to, and the text. -/
structure Outcome where
  settled : Sexp
  text : String

/-- The expressions are lowered in turn, each in the state that those before it leave. -/
inductive LoweredInTurn : List Sexp → State → List Outcome → State → Prop where
  | nil {s : State} : LoweredInTurn [] s [] s
  | cons {e settled : Sexp} {es : List Sexp} {text : String} {outcomes : List Outcome}
      {s between after : State} : e.lowered s = (.ok text, between) → Settles s.registry e settled →
      LoweredInTurn es between outcomes after →
      LoweredInTurn (e :: es) s (⟨settled, text⟩ :: outcomes) after

theorem LoweredInTurn.begins {es : List Sexp} {s after : State} {outcomes : List Outcome}
    (h : LoweredInTurn es s outcomes after) : ∀ o ∈ outcomes, o.settled.Begins o.text := by
  induction h with
  | nil => exact fun _ ho => absurd ho List.not_mem_nil
  | cons hlower hsettles _ ih =>
    obtain ⟨_, hsettles', hbegins⟩ := Sexp.begins_of_lowered hlower
    cases hsettles.unique hsettles'
    exact List.forall_mem_cons.mpr ⟨hbegins, ih⟩

namespace Operation

variable (spelling : String)

/-- Operands behind the first one, each with its operator in front. -/
def chain (outcomes : List Outcome) : List Char :=
  outcomes.flatMap fun o => behindOperator spelling o.text.toList

/-- The text of an operation up to the operator behind `outcomes`. -/
def ahead (first : Outcome) (outcomes : List Outcome) : List Char :=
  '(' :: (first.text.toList ++ chain spelling outcomes)

/-- The text of an operation behind the operator of an operand. -/
def behind (operand : Outcome) (outcomes : List Outcome) : List Char :=
  spacing spelling operand.text ++ (operand.text.toList ++ (chain spelling outcomes ++ [')']))

theorem ahead_append (first o : Outcome) (left right : List Outcome) :
    ahead spelling first (left ++ o :: right) ++ [')']
      = ahead spelling first left ++ (spelling.toList ++ behind spelling o right) := by
  simp only [ahead, behind, chain, List.flatMap_append, List.flatMap_cons, behindOperator_eq_spacing,
    List.cons_append, List.append_assoc]

end Operation

namespace Layout

theorem render_concat_cons {lower : Sexp → Lowering String} {part : Layout} {parts : List Layout}
    {s after : State} {text : String} (h : (concat (part :: parts)).render lower s = (.ok text, after)) :
    ∃ t u between, part.render lower s = (.ok t, between)
      ∧ (concat parts).render lower between = (.ok u, after) ∧ text.toList = t.toList ++ u.toList := by
  cases parts with
  | nil => exact ⟨text, "", after, h, rfl, (List.append_nil _).symm⟩
  | cons next rest =>
    obtain ⟨t, between, hfirst, hrest⟩ := ok_of_bind h
    obtain ⟨u, after', hsecond, hlast⟩ := ok_of_bind hrest
    cases hlast
    exact ⟨t, u, between, hfirst, hsecond, String.toList_append⟩

theorem render_parens {lower : Sexp → Lowering String} {part : Layout} {s after : State} {text : String}
    (h : (parens part).render lower s = (.ok text, after)) :
    ∃ t, part.render lower s = (.ok t, after) ∧ text.toList = '(' :: (t.toList ++ [')']) := by
  obtain ⟨t, u, between, hopen, hrest, htext⟩ := render_concat_cons h
  cases hopen
  obtain ⟨t, u, between, hpart, hclose, hrest⟩ := render_concat_cons hrest
  cases hclose
  refine ⟨t, hpart, ?_⟩
  rw [htext, hrest]
  rfl

/-- Operands with an operator in front of each. -/
theorem render_chain {spelling : String} {es : List Sexp} {s after : State} {text : String}
    (h : (concat (es.map fun e => .wrap (.operator spelling) (.operand e))).render Sexp.lowered s
      = (.ok text, after)) :
    ∃ outcomes, LoweredInTurn es s outcomes after ∧ text.toList = Operation.chain spelling outcomes := by
  induction es generalizing s text with
  | nil =>
    cases h
    exact ⟨[], .nil, rfl⟩
  | cons e es ih =>
    obtain ⟨t, u, between, hwrap, hrest, htext⟩ := render_concat_cons h
    obtain ⟨v, _, hlower, hspelt⟩ := ok_of_bind hwrap
    cases hspelt
    obtain ⟨settled, hsettles, _⟩ := Sexp.begins_of_lowered hlower
    obtain ⟨outcomes, hturn, hu⟩ := ih hrest
    refine ⟨⟨settled, v⟩ :: outcomes, LoweredInTurn.cons hlower hsettles hturn, ?_⟩
    rw [htext, hu, Wrap.apply, toList_afterOperator]
    rfl

end Layout

/-! ## Where operators fuse -/

namespace Operator

theorem ends_in_slash (op : Operator) : op.spelling.toList.getLast? = some '/' ↔ op = .div := by
  cases op <;> decide

/-- The operators that are read as another sign when they are written twice. -/
theorem fuses_itself (op : Operator) (behind : List Char) :
    Fuses op.spelling.toList (op.spelling.toList ++ behind) ↔ op ∈ [.add, .sub, .div] := by
  cases op <;> simp [Fuses, fusing, spelling, name]

end Operator

namespace Operation

/-- An operand that leaves no text: what follows is the next operator, or the end. -/
theorem fuses_behind_empty (op : Operator) (settled : Sexp) (right : List Outcome) :
    Fuses op.spelling.toList (behind op.spelling ⟨settled, ""⟩ right)
      ↔ op ∈ [.add, .sub, .div] ∧ right ≠ [] := by
  have hspacing : spacing op.spelling "" = [] := by
    have hrun : ¬Wrap.runTogether op.spelling "" = true := by simp [runTogether_iff]
    rw [spacing, if_neg hrun]
  rw [behind, hspacing]
  cases right with
  | nil =>
    show Fuses op.spelling.toList [')'] ↔ _
    simp [fuses_cons, fusing]
  | cons next rest =>
    have hchain : chain op.spelling (next :: rest)
        = op.spelling.toList ++ (spacing op.spelling next.text ++ next.text.toList
          ++ chain op.spelling rest) := by
      rw [chain, List.flatMap_cons, behindOperator_eq_spacing, List.append_assoc]
      rfl
    rw [hchain]
    simp [List.append_assoc, Operator.fuses_itself]

/-- An operand that leaves a text: what follows is its first character, or a space. -/
theorem fuses_behind_cons (op : Operator) {o : Outcome} {c : Char} {cs : List Char}
    (ho : o.text.toList = c :: cs) (right : List Outcome) :
    Fuses op.spelling.toList (behind op.spelling o right) ↔ op = .div ∧ (c = '/' ∨ c = '*') := by
  rw [behind, ho, spacing]
  by_cases hrun : Wrap.runTogether op.spelling o.text = true
  · -- the operator ends in a plus or a minus, and a space keeps them apart
    obtain ⟨a, hlast, _, ha⟩ := runTogether_iff.mp hrun
    rw [if_pos hrun, List.singleton_append, fuses_cons, ← Operator.ends_in_slash, hlast]
    rcases ha with rfl | rfl <;> simp [fusing]
  · rw [if_neg hrun, List.nil_append, List.cons_append, fuses_cons, ← Operator.ends_in_slash]
    rw [runTogether_iff, ho, List.head?_cons] at hrun
    constructor
    · rintro ⟨a, hlast, hfusing⟩
      simp only [fusing, List.mem_cons, Prod.mk.injEq, List.not_mem_nil, or_false] at hfusing
      rcases hfusing with ⟨rfl, rfl⟩ | ⟨rfl, rfl⟩ | ⟨rfl, rfl⟩ | ⟨rfl, rfl⟩
      · exact absurd ⟨_, hlast, rfl, .inl rfl⟩ hrun
      · exact absurd ⟨_, hlast, rfl, .inr rfl⟩ hrun
      · exact ⟨hlast, .inl rfl⟩
      · exact ⟨hlast, .inr rfl⟩
    · rintro ⟨hlast, rfl | rfl⟩
      · exact ⟨'/', hlast, by simp [fusing]⟩
      · exact ⟨'/', hlast, by simp [fusing]⟩

theorem fuses_behind (op : Operator) {o : Outcome} (ho : o.settled.Begins o.text) (right : List Outcome) :
    Fuses op.spelling.toList (behind op.spelling o right)
      ↔ (op ∈ [.add, .sub, .div] ∧ o.settled.isSilent = true ∧ right ≠ [])
        ∨ (op = .div ∧ (o.settled.wordHead? = some '/' ∨ o.settled.wordHead? = some '*')) := by
  have hslash := ho.head '/' (.inl rfl)
  have hstar := ho.head '*' (.inr rfl)
  rw [← hslash, ← hstar, ← ho.silent]
  cases hchars : o.text.toList with
  | nil =>
    obtain ⟨settled, text⟩ := o
    cases String.toList_eq_nil_iff.mp hchars
    simp [fuses_behind_empty]
  | cons c cs =>
    have hne : o.text ≠ "" := by
      intro hempty
      rw [hempty] at hchars
      cases hchars
    simp [fuses_behind_cons op hchars, hne]

end Operation

theorem Sexp.room_of_lowered {e : Sexp} {s after : State} {text : String}
    (h : e.lowered s = (.ok text, after)) : s.depth < maxLowering := by
  by_contra hroom
  rw [Sexp.lowered_eq, if_neg hroom] at h
  cases h

/-- The layout of a form that was accepted is the one its contract allows. -/
theorem Builtin.render_of_lowered {form : Builtin} {args : List Sexp} {s after : State} {text : String}
    (hname : s.registry.get? form.name = none) (h : (form.call args).lowered s = (.ok text, after)) :
    form.arity.Met (form.split args).2.length
      ∧ ∃ inner, (form.body (form.split args).1 (form.split args).2).render Sexp.lowered
          { s with depth := s.depth + 1 } = (.ok text, inner) := by
  rw [lowered_call_eq form args (Sexp.room_of_lowered h) hname] at h
  obtain ⟨inner, hrender⟩ := ok_of_nested h
  by_cases hmet : form.arity.Met (form.split args).2.length
  · rw [layout_of_met hmet] at hrender
    exact ⟨hmet, inner, hrender⟩
  · obtain ⟨violation, hreject⟩ := layout_of_violation hmet
    rw [hreject] at hrender
    cases hrender

/-- **Where operators run together with what follows them.** The text of an operation has an operator in
    front of every operand but the first. An operator is read as one sign with what follows it in two cases
    only: it is `+`, `-` or `/`, and its operand settles to something that leaves no text and has an operand
    behind it; or it is `/`, and its operand settles to a regular expression or to a symbol that begins with a
    slash or a star. The sign of a negation is never run together with what follows it. -/
theorem operators_fuse_iff (s : State) :
    (∀ (op : Operator) (args : List Sexp) (text : String) (after : State),
      s.registry.get? op.name = none →
      ((Builtin.operator op).call args).lowered s = (.ok text, after) →
      ∃ first rest last, LoweredInTurn args { s with depth := s.depth + 1 } (first :: rest) last
        ∧ ∀ left o right, rest = left ++ o :: right →
          text.toList = Operation.ahead op.spelling first left
              ++ (op.spelling.toList ++ Operation.behind op.spelling o right)
            ∧ (Fuses op.spelling.toList (Operation.behind op.spelling o right)
              ↔ (op ∈ [.add, .sub, .div] ∧ o.settled.isSilent = true ∧ right ≠ [])
                ∨ (op = .div ∧ (o.settled.wordHead? = some '/' ∨ o.settled.wordHead? = some '*'))))
    ∧ (∀ (args : List Sexp) (text : String) (after : State),
      s.registry.get? Builtin.negation.name = none →
      (Builtin.negation.call args).lowered s = (.ok text, after) →
      ∃ behind, text.toList = '(' :: '-' :: behind ∧ ¬Fuses ['-'] behind) := by
  constructor
  · intro op args text after hname h
    obtain ⟨_, inner, hrender⟩ := Builtin.render_of_lowered hname h
    cases args with
    | nil => cases hrender
    | cons e es =>
      obtain ⟨t, hparts, htext⟩ := Layout.render_parens hrender
      obtain ⟨u, v, between, hfirst, hrest, ht⟩ := Layout.render_concat_cons hparts
      obtain ⟨outcomes, hturn, hv⟩ := Layout.render_chain hrest
      obtain ⟨settled, hsettles, _⟩ := Sexp.begins_of_lowered hfirst
      have hall := LoweredInTurn.cons hfirst hsettles hturn
      refine ⟨⟨settled, u⟩, outcomes, inner, hall, ?_⟩
      rintro left o right rfl
      constructor
      · rw [← Operation.ahead_append, htext, ht, hv]
        simp [Operation.ahead]
      · exact Operation.fuses_behind op (hturn.begins o (by simp)) right
  · intro args text after hname h
    obtain ⟨hmet, inner, hrender⟩ := Builtin.render_of_lowered hname h
    obtain ⟨e, rfl⟩ : ∃ e, args = [e] := List.length_eq_one_iff.mp (Arity.met_exactly.mp hmet)
    obtain ⟨t, hsigned, htext⟩ := Layout.render_parens hrender
    obtain ⟨u, _, hlower, hspelt⟩ := ok_of_bind hsigned
    cases hspelt
    obtain ⟨settled, _, hbegins⟩ := Sexp.begins_of_lowered hlower
    refine ⟨Operation.behind "-" ⟨settled, u⟩ [], ?_, ?_⟩
    · rw [htext, Wrap.apply, toList_afterOperator, behindOperator_eq_spacing]
      simp [Operation.behind, Operation.chain]
    · -- the sign is written like a difference with nothing behind its last operand
      intro hfuses
      have hsub := (Operation.fuses_behind .sub hbegins []).mp hfuses
      simp at hsub

theorem operators_fuse_iff_quotient :
    State.initial.registry.get? Operator.div.name = none
    ∧ ((Builtin.operator .div).call [.symbol "a", .regex "b" ""]).lowered .initial
      = (.ok "(a//b/)", .initial)
    ∧ ∃ first o, o.settled = .regex "b" ""
      ∧ "(a//b/)".toList = Operation.ahead "/" first [] ++ (['/'] ++ Operation.behind "/" o [])
      ∧ Fuses ['/'] (Operation.behind "/" o []) := by
  have hlowered : ((Builtin.operator .div).call [.symbol "a", .regex "b" ""]).lowered .initial
      = (.ok "(a//b/)", .initial) := rfl
  refine ⟨rfl, hlowered, ?_⟩
  obtain ⟨first, rest, last, hturn, hplaces⟩ := (operators_fuse_iff .initial).1 .div _ _ _ rfl hlowered
  cases hturn with
  | cons _ _ hrest =>
    cases hrest with
    | @cons _ settled _ text _ _ _ _ _ hsettles hnil =>
      cases hnil
      cases hsettles.unique (.done rfl)
      obtain ⟨htext, hfuses⟩ := hplaces [] ⟨.regex "b" "", text⟩ [] rfl
      exact ⟨_, _, rfl, htext, hfuses.mpr (.inr ⟨rfl, .inl rfl⟩)⟩

/-- A regular expression and a symbol behind a slash, and nothing between two signs. -/
theorem operators_run_together :
    (Session.ofText "(/ a /b/)").compile.1 = .ok "(a//b/);\n"
    ∧ (Session.ofText "(/ a *b)").compile.1 = .ok "(a/*b);\n"
    ∧ (Session.ofText "(+ a (nop) b)").compile.1 = .ok "(a++b);\n"
    ∧ (Session.ofText "(- a (nop) b)").compile.1 = .ok "(a--b);\n" := by
  refine ⟨?_, ?_, ?_, ?_⟩
  all_goals exact ok_of_toOption (by decide +kernel)

end FormScript
