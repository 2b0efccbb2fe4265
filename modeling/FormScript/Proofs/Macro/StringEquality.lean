import FormScript.Proofs.Lowering.Quotation
import FormScript.Session

/-!
# Equality of strings in macro bodies

`=`, `same` and `!=` on two strings in a macro body are carried out at once (`Constant.ofStrings?`). They
compare what stands between the quotes. The literal that a string lowers to is written anew: a double quote
or a line end that stands bare in the content is escaped there (`Literal.quote`). So one literal may belong
to several contents: `'a"b'` and `"a\"b"` both become `"a\"b"`.

Strings that are held to be equal lower to one literal. Of two strings with one literal, those are held to
differ in which different characters stand bare (`folded_string_equality`). In particular the comparison
goes by the literal where nothing stands bare, and every string in which something does has a twin of the
same literal from which it is told apart.
-/

namespace FormScript

/-! ## Contents and literals -/

namespace Literal

/-- For every character or pair of the text in turn, whether it is a double quote or a line end that no
    backslash protects. -/
def bareness : List Char → List Bool
  | [] => []
  | [c] => [needsEscape c]
  | c :: d :: cs => if c = '\\' then false :: bareness cs else needsEscape c :: bareness (d :: cs)

theorem bareness_pair (d : Char) (cs : List Char) :
    bareness ('\\' :: d :: cs) = false :: bareness cs := by
  simp [bareness]

theorem bareness_cons {c : Char} (hc : c ≠ '\\') (cs : List Char) :
    bareness (c :: cs) = needsEscape c :: bareness cs := by
  cases cs with
  | nil => rfl
  | cons d cs => simp [bareness, hc]

/-- What a literal has for a character that needs an escape begins with a backslash, and what follows tells
    which character it is. -/
theorem escapeBare_inj {c d : Char} (hc : needsEscape c = true) (hd : needsEscape d = true)
    {cs ds : List Char} (h : escapeBare c ++ cs = escapeBare d ++ ds) : c = d ∧ cs = ds := by
  simp only [needsEscape, isLineEnd, Bool.or_eq_true, decide_eq_true_eq] at hc hd
  rcases hc with rfl | ((rfl | rfl) | rfl) | rfl <;> rcases hd with rfl | ((rfl | rfl) | rfl) | rfl
  all_goals simp_all [escapeBare]

end Literal

/-- A text that consists of escape pairs and of characters other than a backslash. -/
inductive Paired : List Char → Prop where
  | nil : Paired []
  | pair {c : Char} {cs : List Char} : Paired cs → Paired ('\\' :: c :: cs)
  | single {c : Char} {cs : List Char} : c ≠ '\\' → Paired cs → Paired (c :: cs)

namespace Paired

open Literal

/-- What is read up to a delimiter consists of pairs and characters. -/
theorem of_splitDelimited {delimiter : Char} {text cs rest : List Char}
    (h : splitDelimited delimiter text = some (cs, rest)) : Paired cs := by
  fun_induction splitDelimited delimiter text generalizing cs rest with
  | case1 => cases h
  | case2 =>
    cases h
    exact .nil
  | case3 => cases h
  | case4 d text ih =>
    obtain ⟨⟨inner, _⟩, hinner, hpair⟩ := Option.map_eq_some_iff.mp h
    cases hpair
    exact .pair (ih hinner)
  | case5 =>
    cases h
    exact .nil
  | case6 c d text hc _ ih =>
    obtain ⟨⟨inner, _⟩, hinner, hpair⟩ := Option.map_eq_some_iff.mp h
    cases hpair
    exact .single hc (ih hinner)

/-- A pair and a character that has no escape begin differently in a literal. -/
theorem body_pair_ne {c d : Char} (hd : d ≠ '\\') (hfree : needsEscape d = false) (cs ds : List Char) :
    body ('\\' :: c :: cs) ≠ body (d :: ds) := by
  rw [body_pair, body_cons hd, escapeBare_of_not_needs hfree]
  intro h
  exact hd (List.cons.inj h).1.symm

/-- The literal and what stood bare determine the content. -/
theorem eq_of_body_eq {cs ds : List Char} (hcs : Paired cs) (hds : Paired ds)
    (hbody : body cs = body ds) (hbare : bareness cs = bareness ds) : cs = ds := by
  induction hcs generalizing ds with
  | nil =>
    cases hds with
    | nil => rfl
    | pair _ =>
      rw [body_pair] at hbody
      cases hbody
    | single hd _ =>
      rw [bareness_cons hd] at hbare
      cases hbare
  | @pair c cs hcs ih =>
    cases hds with
    | nil =>
      rw [body_pair] at hbody
      cases hbody
    | pair hds =>
      rw [body_pair, body_pair] at hbody
      rw [bareness_pair, bareness_pair] at hbare
      obtain ⟨rfl, hrest⟩ := List.cons.inj (List.cons.inj hbody).2
      rw [ih hds hrest (List.cons.inj hbare).2]
    | single hd _ =>
      rw [bareness_pair, bareness_cons hd] at hbare
      exact absurd hbody (body_pair_ne hd (List.cons.inj hbare).1.symm _ _)
  | @single c cs hc hcs ih =>
    cases hds with
    | nil =>
      rw [bareness_cons hc] at hbare
      cases hbare
    | pair _ =>
      rw [bareness_pair, bareness_cons hc] at hbare
      exact absurd hbody.symm (body_pair_ne hc (List.cons.inj hbare).1 _ _)
    | @single d ds hd hds =>
      rw [bareness_cons hc, bareness_cons hd] at hbare
      obtain ⟨hneeds, hbare⟩ := List.cons.inj hbare
      rw [body_cons hc, body_cons hd] at hbody
      -- both characters are escaped, or both stand in the literal as they are
      have hsplit : c = d ∧ body cs = body ds := by
        cases hneed : needsEscape c with
        | true => exact escapeBare_inj hneed (hneeds ▸ hneed) hbody
        | false =>
          rw [escapeBare_of_not_needs hneed, escapeBare_of_not_needs (hneeds ▸ hneed)] at hbody
          exact List.cons.inj hbody
      rw [hsplit.1, ih hds hsplit.2 hbare]

end Paired

/-- Nothing stands bare in the body of a literal. -/
theorem Protected.not_hasBare {cs : List Char} (h : Protected cs) : Literal.hasBare cs = false := by
  induction h with
  | nil => rfl
  | pair _ ih => simp [Literal.hasBare, ih]
  | @bare c cs hc hbare _ ih =>
    have hneeds : Literal.needsEscape c = false := Literal.escapeBare_eq_iff.mp hbare
    cases cs with
    | nil => exact hneeds
    | cons d cs => simp [Literal.hasBare, hc, hneeds, ih]

/-! ## Strings that were read -/

/-- The content of a string that was read ends at the delimiter behind it and not before. -/
theorem Sexp.IsRead.splitDelimited_eq {content : String} (h : (Sexp.string content).IsRead) :
    ∃ delimiter, splitDelimited delimiter (content.toList ++ [delimiter])
      = some (content.toList, []) := by
  obtain ⟨text, e, he, hpart⟩ := h
  have hatoms : Reads fun _ e => e.Every Sexp.HasLexeme := Reads.every fun _ ha => ha
  obtain ⟨cs, hcs⟩ := Sexp.every_string.mp (hpart.every (hatoms.readAll text e he))
  generalize ha : Sexp.string content = a at hcs
  cases hcs with
  | @string quote body _ hsplit =>
    cases ha
    rw [String.toList_ofList]
    exact ⟨quote, hsplit⟩
  | divide => cases ha
  | divideBy => cases ha
  | regex => cases ha
  | @word first tail stop _ _ =>
    rcases wordValue_cases (first :: tail) stop with ⟨x, hvalue⟩ | hvalue
    all_goals
      rw [hvalue] at ha
      cases ha

theorem Sexp.eq_of_equals_string {e : Sexp} {content : String}
    (h : e.equals (.string content) = true) : e = .string content := by
  cases e with
  | string c => rw [of_decide_eq_true h]
  | _ => cases h

/-- The body of the literal is the content of a string that is read from the literal. -/
theorem Sexp.IsRead.body {content : String} (h : (Sexp.string content).IsRead) :
    (Sexp.string (String.ofList (Literal.body content.toList))).IsRead := by
  obtain ⟨t, hdepth, hmirrors⟩ := h.mirroredWithin
  have hvalue : t.value = .string (String.ofList (Literal.body content.toList)) :=
    eq_of_equals_string hmirrors.same
  have hforest : List.Forall₂ Mirrors [t] [Sexp.string content] := .cons hmirrors .nil
  have hrenders : Tree.Renders [t] (spaced [Sexp.string content]).toList :=
    ⟨[], _, .nil, writtenAll_spaced hforest, (List.nil_append _).symm⟩
  have hdepths : Tree.depths [t] ≤ maxNesting := by
    rw [Tree.depths, Tree.depths]
    omega
  obtain ⟨hagain, _⟩ := Tree.readAll_renders hdepths hrenders
  refine ⟨spaced [Sexp.string content], t.value, ?_, ?_⟩
  · rw [hagain, Tree.values]
    exact List.mem_cons_self
  · rw [hvalue]
    exact .self _

theorem Sexp.lowered_string {s : Lowering.State} (h : s.depth < maxLowering) (content : String) :
    (Sexp.string content).lowered s = (.ok (Literal.quote content), s) := by
  rw [Sexp.lowered_of_no_call h rfl]
  rfl

/-- Both strings lower to one literal, wherever there is room to lower them. -/
def LoweredAlike (a b : String) : Prop :=
  ∃ literal, ∀ s : Lowering.State, s.depth < maxLowering →
    (Sexp.string a).lowered s = (.ok literal, s) ∧ (Sexp.string b).lowered s = (.ok literal, s)

theorem loweredAlike_iff {a b : String} :
    LoweredAlike a b ↔ Literal.body a.toList = Literal.body b.toList := by
  constructor
  · rintro ⟨literal, hliteral⟩
    have hroom : Lowering.State.initial.depth < maxLowering := by decide
    obtain ⟨ha, hb⟩ := hliteral .initial hroom
    rw [Sexp.lowered_string hroom] at ha hb
    have hquote : Literal.quote a = Literal.quote b :=
      (Except.ok.inj (Prod.mk.inj ha).1).trans (Except.ok.inj (Prod.mk.inj hb).1).symm
    have hchars := String.ofList_injective hquote
    exact List.append_cancel_right (List.cons.inj hchars).2
  · intro hbody
    refine ⟨Literal.quote a, fun s hroom => ⟨Sexp.lowered_string hroom a, ?_⟩⟩
    rw [Sexp.lowered_string hroom, Literal.quote, Literal.quote, hbody]

/-! ## Strings compared in a macro body -/

/-- Where the names are bound so, a macro body holds the strings to be equal (`true`) or to differ
    (`false`). -/
structure Judged (env : Bindings) (a b : String) (verdict : Bool) : Prop where
  equal : Sexp.eval env (.group .round [.symbol "=", .string a, .string b]) = .ok (.ofBool verdict)
  same : Sexp.eval env (.group .round [.symbol "same", .string a, .string b]) = .ok (.ofBool verdict)
  unequal : Sexp.eval env (.group .round [.symbol "!=", .string a, .string b]) = .ok (.ofBool !verdict)

theorem judged {env : Bindings} (henv : ∀ name ∈ ["=", "same", "!="], env.get? name = none)
    (a b : String) : Judged env a b (decide (a = b)) where
  equal := by
    rw [Sexp.eval_of_ordinary (henv "=" (by simp)) (by decide)]
    rfl
  same := by
    rw [Sexp.eval_of_ordinary (henv "same" (by simp)) (by decide)]
    rfl
  unequal := by
    rw [Sexp.eval_of_ordinary (henv "!=" (by simp)) (by decide), ← decide_not]
    rfl

/-- **Strings are compared by what is written, not by what they lower to.** Two strings that were read
    are held to be equal if they lower to one literal and the same characters stand bare in them; otherwise
    they are held to differ. So the comparison goes by the literal if nothing stands bare in either. If
    something stands bare in a string, then the string that is read from its literal lowers to the same
    literal, and is held to differ from it. -/
theorem folded_string_equality {a b : String} (ha : (Sexp.string a).IsRead)
    (hb : (Sexp.string b).IsRead) {env : Bindings}
    (henv : ∀ name ∈ ["=", "same", "!="], env.get? name = none) :
    (∃ verdict, Judged env a b verdict
      ∧ (verdict = true ↔ LoweredAlike a b ∧ Literal.bareness a.toList = Literal.bareness b.toList)
      ∧ (Literal.hasBare a.toList = false → Literal.hasBare b.toList = false →
        (verdict = true ↔ LoweredAlike a b)))
    ∧ (Literal.hasBare a.toList = true → ∃ c : String, (Sexp.string c).IsRead
        ∧ Literal.hasBare c.toList = false ∧ LoweredAlike a c ∧ Judged env a c false) := by
  obtain ⟨quoteA, hsplitA⟩ := ha.splitDelimited_eq
  obtain ⟨quoteB, hsplitB⟩ := hb.splitDelimited_eq
  constructor
  · refine ⟨decide (a = b), judged henv a b, ?_, ?_⟩
    · rw [decide_eq_true_iff, loweredAlike_iff]
      constructor
      · rintro rfl
        exact ⟨rfl, rfl⟩
      · rintro ⟨hbody, hbare⟩
        exact String.toList_injective
          ((Paired.of_splitDelimited hsplitA).eq_of_body_eq (.of_splitDelimited hsplitB) hbody hbare)
    · intro hbareA hbareB
      rw [decide_eq_true_iff, loweredAlike_iff, Literal.body_of_not_hasBare hsplitA hbareA,
        Literal.body_of_not_hasBare hsplitB hbareB, String.toList_inj]
  · intro hbare
    -- the string that is read from the literal
    have hbody : Protected (Literal.body a.toList) := .body a.toList
    refine ⟨String.ofList (Literal.body a.toList), ha.body, ?_, ?_, ?_⟩
    · rw [String.toList_ofList]
      exact hbody.not_hasBare
    · rw [loweredAlike_iff, String.toList_ofList, hbody.body_eq]
    · have hne : a ≠ String.ofList (Literal.body a.toList) := by
        intro heq
        have hchars : a.toList = Literal.body a.toList :=
          (congrArg String.toList heq).trans String.toList_ofList
        rw [hchars, hbody.not_hasBare] at hbare
        cases hbare
      have hjudged := judged henv a (String.ofList (Literal.body a.toList))
      rwa [decide_eq_false hne] at hjudged

/-- A double quote that stands bare in one of the strings and is escaped in the other. -/
theorem folded_string_equality_quote :
    (Sexp.string "a\"b").IsRead ∧ (Sexp.string "a\\\"b").IsRead
      ∧ ∃ verdict, Judged [] "a\"b" "a\\\"b" verdict
        ∧ (verdict = true ↔ LoweredAlike "a\"b" "a\\\"b"
          ∧ Literal.bareness "a\"b".toList = Literal.bareness "a\\\"b".toList) := by
  have hread : (Reader.ofText "'a\"b' \"a\\\"b\"").readAll.expressions
      = [.string "a\"b", .string "a\\\"b"] := by with_unfolding_all rfl
  have hbare : (Sexp.string "a\"b").IsRead :=
    ⟨_, _, by rw [hread]; exact List.mem_cons_self, .self _⟩
  have hescaped : (Sexp.string "a\\\"b").IsRead :=
    ⟨_, _, by rw [hread]; exact List.mem_cons_of_mem _ List.mem_cons_self, .self _⟩
  have hunbound : ∀ name ∈ ["=", "same", "!="], Bindings.get? [] name = none := by
    intro name _
    rfl
  obtain ⟨⟨verdict, hjudged, hexact, _⟩, _⟩ := folded_string_equality hbare hescaped hunbound
  exact ⟨hbare, hescaped, verdict, hjudged, hexact⟩

/-- Two strings that lower to one literal, and a program whose macro holds them to differ. -/
theorem quote_styles_told_apart :
    LoweredAlike "a\"b" "a\\\"b" ∧ Judged [] "a\"b" "a\\\"b" false
      ∧ (Session.ofText "(macro m () (= 'a\"b' \"a\\\"b\")) (m)").compile.1 = .ok "false;\n" := by
  have halike : LoweredAlike "a\"b" "a\\\"b" := loweredAlike_iff.mpr (by decide)
  have hjudged : Judged [] "a\"b" "a\\\"b" false := judged (by intro _ _; rfl) _ _
  exact ⟨halike, hjudged, ok_of_toOption (by decide +kernel)⟩

end FormScript
