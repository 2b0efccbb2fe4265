import FormScript.Proofs.Lowering.Fragment
import FormScript.Proofs.Sexp.StringValue

/-!
# Quoted expressions

`(quote a b)` lowers to a string that holds its operands in source notation. Nothing is lost: undoing the
escapes of the literal gives the operands as they are printed, and reading that gives them back
(`quotation_lossless`). Two layers of escapes lie on top of each other. The inner one belongs to the
strings among the operands, and is undone by reading; the outer one is put around the printed text as a
whole, a backslash of the inner layer included, and is undone by `Literal.unquote?`.

An operand may have been read anywhere in a text (`Sexp.IsRead`). What is read again is printed like the
operand, and is the operand itself unless printing has changed it: a number beyond all finite ones has
become a symbol, and a bare quote or line end in a string has got a backslash.
-/

namespace FormScript

/-! ## Undoing escapes -/

namespace Literal

/-- The text up to the double quote that ends it, with the six escapes undone. -/
def unquoteFrom? : List Char → Option (List Char)
  | [] => none
  | '\\' :: '\\' :: cs => (unquoteFrom? cs).map ('\\' :: ·)
  | '\\' :: '"' :: cs => (unquoteFrom? cs).map ('"' :: ·)
  | '\\' :: 'n' :: cs => (unquoteFrom? cs).map ('\n' :: ·)
  | '\\' :: 'r' :: cs => (unquoteFrom? cs).map ('\r' :: ·)
  | '\\' :: 'u' :: '2' :: '0' :: '2' :: '8' :: cs => (unquoteFrom? cs).map ('\u2028' :: ·)
  | '\\' :: 'u' :: '2' :: '0' :: '2' :: '9' :: cs => (unquoteFrom? cs).map ('\u2029' :: ·)
  | '"' :: cs => if cs = [] then some [] else none
  | c :: cs => if c = '\\' ∨ isLineEnd c = true then none else (unquoteFrom? cs).map (c :: ·)

/-- What a double-quoted literal stands for; `none` if the text is not one literal. -/
def unquote? : List Char → Option (List Char)
  | '"' :: cs => unquoteFrom? cs
  | _ => none

theorem unquoteFrom?_plain {c : Char} (hc : c ≠ '\\') (hneeds : needsEscape c = false)
    (cs : List Char) : unquoteFrom? (c :: cs) = (unquoteFrom? cs).map (c :: ·) := by
  simp only [needsEscape, Bool.or_eq_false_iff, decide_eq_false_iff_not] at hneeds
  rw [unquoteFrom?]
  · simp [hc, hneeds.2]
  all_goals simp_all

/-- What a literal has for a character stands for that character. -/
theorem unquoteFrom?_escapeBare {c : Char} (hc : c ≠ '\\') (cs : List Char) :
    unquoteFrom? (escapeBare c ++ cs) = (unquoteFrom? cs).map (c :: ·) := by
  by_cases hneeds : needsEscape c = true
  · simp only [needsEscape, isLineEnd, Bool.or_eq_true, decide_eq_true_eq] at hneeds
    rcases hneeds with rfl | ((rfl | rfl) | rfl) | rfl
    all_goals rfl
  · have hfree : needsEscape c = false := by simpa using hneeds
    rw [escapeBare_of_not_needs hfree, List.singleton_append, unquoteFrom?_plain hc hfree]

theorem unquoteFrom?_verbatimBody (cs : List Char) :
    unquoteFrom? (verbatimBody cs ++ ['"']) = some cs := by
  induction cs with
  | nil => rfl
  | cons c cs ih =>
    by_cases hc : c = '\\'
    · subst hc
      -- a backslash is doubled whatever stands behind it
      have hslash : verbatimBody ('\\' :: cs) ++ ['"']
          = '\\' :: '\\' :: (verbatimBody cs ++ ['"']) := by simp [verbatimBody]
      rw [hslash, unquoteFrom?, ih]
      rfl
    · have hother : verbatimBody (c :: cs) ++ ['"'] = escapeBare c ++ (verbatimBody cs ++ ['"']) := by
        simp [verbatimBody, hc]
      rw [hother, unquoteFrom?_escapeBare hc, ih]
      rfl

/-- **Undoing the escapes of a verbatim literal gives its text.** -/
theorem unquote?_quoteVerbatim (text : String) :
    unquote? (quoteVerbatim text).toList = some text.toList := by
  rw [quoteVerbatim, String.toList_ofList]
  exact unquoteFrom?_verbatimBody text.toList

/-- A double quote or a line end stands in the text without a backslash that protects it. -/
def hasBare : List Char → Bool
  | [] => false
  | [c] => needsEscape c
  | c :: d :: cs => if c = '\\' then hasBare cs else needsEscape c || hasBare (d :: cs)

/-- The content of a string that was read is its own body if nothing stands bare in it. -/
theorem body_of_not_hasBare {delimiter : Char} {cs : List Char}
    (hread : splitDelimited delimiter (cs ++ [delimiter]) = some (cs, []))
    (h : hasBare cs = false) : body cs = cs := by
  fun_induction hasBare cs with
  | case1 => rfl
  | case2 c =>
    -- a backslash at the end would have protected the delimiter
    have hc : c ≠ '\\' := by
      rintro rfl
      simp [splitDelimited] at hread
    rw [body_cons hc, escapeBare_of_not_needs h]
    rfl
  | case3 d cs ih =>
    rw [List.cons_append, List.cons_append, splitDelimited, if_pos rfl] at hread
    obtain ⟨⟨inner, rest⟩, hinner, hpair⟩ := Option.map_eq_some_iff.mp hread
    simp only [Prod.mk.injEq, List.cons.injEq, true_and] at hpair
    rw [hpair.1, hpair.2] at hinner
    rw [body_pair, ih hinner h]
  | case4 c d cs hc ih =>
    obtain ⟨hneeds, hrest⟩ := Bool.or_eq_false_iff.mp h
    have hdelimiter : c ≠ delimiter := by
      rintro rfl
      simp [splitDelimited, hc] at hread
    rw [List.cons_append, List.cons_append, splitDelimited, if_neg hc, if_neg hdelimiter] at hread
    obtain ⟨⟨inner, rest⟩, hinner, hpair⟩ := Option.map_eq_some_iff.mp hread
    simp only [Prod.mk.injEq, List.cons.injEq, true_and] at hpair
    rw [hpair.1, hpair.2] at hinner
    rw [body_cons hc, escapeBare_of_not_needs hneeds, ih hinner hrest]
    rfl

end Literal

/-! ## What was read -/

namespace Sexp

/-- The first expression is the second one or stands somewhere inside it. -/
inductive Part : Sexp → Sexp → Prop where
  | self (e : Sexp) : Part e e
  | inside {a e : Sexp} {b : Bracket} {items : List Sexp} : e ∈ items → Part a e →
      Part a (.group b items)

/-- The expression stands somewhere in what is read from a text. -/
def IsRead (a : Sexp) : Prop := ∃ text, ∃ e ∈ (Reader.ofText text).readAll.expressions, a.Part e

theorem Part.every {p : Sexp → Prop} {a e : Sexp} (h : a.Part e) (he : e.Every p) : a.Every p := by
  induction h with
  | self => exact he
  | inside hmem _ ih => exact ih (every_group.mp he _ hmem)

/-- The atom is read again as it was when it has been printed: it is no number beyond all finite ones, and
    no string in which a double quote or a line end stands bare. -/
def isStable : Sexp → Bool
  | .number (.infinite _) => false
  | .string content => !Literal.hasBare content.toList
  | _ => true

end Sexp

/-- A stable atom that was read is its own mirror. -/
theorem mirrored_of_isStable {a : Sexp} (h : a.HasLexeme) (hstable : a.isStable = true) :
    a.mirrored = a := by
  obtain ⟨cs, hcs⟩ := h
  cases hcs with
  | @string quote body hquote hsplit =>
    have hbare : Literal.hasBare body = false := by
      simpa [Sexp.isStable] using hstable
    rw [Sexp.mirrored, String.toList_ofList, Literal.body_of_not_hasBare hsplit hbare]
  | divide => rfl
  | divideBy => rfl
  | regex => rw [Sexp.mirrored]
  | @word first tail stop hfirst hword =>
    rcases wordValue_cases (first :: tail) stop with ⟨x, hvalue⟩ | hvalue
    · rw [hvalue] at hstable ⊢
      cases x with
      | infinite negative => cases hstable
      | nan => rfl
      | finite negative rank => rfl
    · rw [hvalue, Sexp.mirrored]

namespace Sexp

mutual

/-- An expression is its own mirror if its atoms are. -/
theorem mirrored_eq_self (e : Sexp) (h : e.Every fun a => a.mirrored = a) : e.mirrored = e := by
  cases e with
  | number x => exact every_number.mp h
  | symbol name => exact every_symbol.mp h
  | string content => exact every_string.mp h
  | regex pattern flags => exact every_regex.mp h
  | group b items =>
    rw [Every] at h
    rw [mirrored, mirroredAll_eq_self items h]

theorem mirroredAll_eq_self (es : List Sexp) (h : EveryIn (fun a => a.mirrored = a) es) :
    mirroredAll es = es := by
  cases es with
  | nil => rw [mirroredAll]
  | cons e es =>
    rw [EveryIn] at h
    rw [mirroredAll, mirrored_eq_self e h.1, mirroredAll_eq_self es h.2]

end

end Sexp

/-- What stands inside an expression that is read is mirrored by a tree, as the expression is. -/
theorem reads_parts : Reads fun n e => ∀ a : Sexp, a.Part e → MirroredWithin n a where
  atom := by
    intro n e hn he a ha
    cases ha with
    | self => exact reads_mirrored.atom n e hn he
    | inside hmem _ =>
      obtain ⟨cs, hcs⟩ := he
      cases hcs.not_group
  group := by
    intro n b items hn hitems a ha
    cases ha with
    | self =>
      exact reads_mirrored.group n b items hn fun e he => hitems e he e (.self e)
    | inside hmem hpart =>
      -- the part was read further inside, where there is less room
      obtain ⟨t, hdepth, hmirrors⟩ := hitems _ hmem a hpart
      exact ⟨t, by omega, hmirrors⟩

theorem Sexp.IsRead.mirroredWithin {a : Sexp} (h : a.IsRead) : MirroredWithin 0 a := by
  obtain ⟨text, e, he, hpart⟩ := h
  exact reads_parts.readAll text e he a hpart

/-- A stable expression that was read is its own mirror. -/
theorem Sexp.IsRead.mirrored_eq {a : Sexp} (h : a.IsRead)
    (hstable : a.Every fun atom => atom.isStable = true) : a.mirrored = a := by
  obtain ⟨text, e, he, hpart⟩ := h
  have hatoms : Reads fun _ e => e.Every Sexp.HasLexeme := Reads.every fun _ ha => ha
  apply Sexp.mirrored_eq_self
  exact Sexp.Every.combine (fun _ => mirrored_of_isStable) a
    (hpart.every (hatoms.readAll text e he)) hstable

/-! ## Quoting and reading -/

/-- A quotation lowers to a verbatim literal, and leaves nothing else behind. -/
theorem lowered_quotation {s : Lowering.State} (hroom : s.depth < maxLowering)
    (hname : s.registry.get? "quote" = none) (args : List Sexp) :
    (Sexp.group .round (.symbol "quote" :: args)).lowered s
      = (.ok (Literal.quoteVerbatim (Sexp.spaced args)), s) := by
  have hlayout : (Sexp.group .round (.symbol "quote" :: args)).layout = Forms.quotation args := by
    refine layout_of_builtin .quotation args rfl ?_
    simp [Builtin.arity, Arity.any, Arity.atLeast, Arity.violation?]
  have hcall : s.registry.callOf? (.group .round (.symbol "quote" :: args)) = none := by
    rw [Registry.callOf?, hname, Option.map_none]
  rw [Sexp.lowered_of_no_call hroom hcall, hlayout]
  rfl

theorem Tree.values_eq_map (ts : List Tree) : Tree.values ts = ts.map Tree.value := by
  induction ts with
  | nil => rw [Tree.values, List.map_nil]
  | cons t ts ih => rw [Tree.values, ih, List.map_cons]

/-- **Quoting loses nothing.** Where no macro has taken the name, a quotation of expressions that were read
    lowers to one double-quoted literal. Undoing its escapes gives the expressions in source notation with a
    space between two neighbours. Reading that succeeds and gives as many expressions, each printed like the
    one it comes from, and equal to it if that one is stable. -/
theorem quotation_lossless {args : List Sexp} (hargs : ∀ a ∈ args, a.IsRead) {s : Lowering.State}
    (hroom : s.depth < maxLowering) (hname : s.registry.get? "quote" = none) :
    ∃ literal decoded : String,
      (Sexp.group .round (.symbol "quote" :: args)).lowered s = (.ok literal, s)
      ∧ Literal.unquote? literal.toList = some decoded.toList
      ∧ decoded = " ".intercalate (args.map Sexp.text)
      ∧ (Reader.ofText decoded).readAll.error = none
      ∧ List.Forall₂
          (fun e a => e.text = a.text
            ∧ ((a.Every fun atom => atom.isStable = true) → e.equals a = true))
          (Reader.ofText decoded).readAll.expressions args := by
  refine ⟨_, Sexp.spaced args, lowered_quotation hroom hname args,
    Literal.unquote?_quoteVerbatim _, by rw [Sexp.spaced, Sexp.texts_eq_map], ?_⟩
  obtain ⟨ts, hdepths, hmirrors⟩ :=
    exists_forest (Nat.zero_le maxNesting) fun a ha => (hargs a ha).mirroredWithin
  have hrenders : Tree.Renders ts (Sexp.spaced args).toList :=
    ⟨[], _, .nil, writtenAll_spaced hmirrors, rfl⟩
  obtain ⟨hagain, herror⟩ := Tree.readAll_renders (by omega) hrenders
  refine ⟨herror, ?_⟩
  rw [hagain, Tree.values_eq_map, List.forall₂_map_left_iff, List.forall₂_iff_zip]
  refine ⟨hmirrors.length_eq, ?_⟩
  intro t a hmem
  obtain ⟨_, htext, hsame⟩ := List.forall₂_zip hmirrors hmem
  refine ⟨htext, ?_⟩
  intro hstable
  rw [(hargs a (List.of_mem_zip hmem).2).mirrored_eq hstable] at hsame
  exact hsame

/-- A regular expression with an escaped slash, a string with a bare quote, and a group with an escaped
    quote in it, all from one text. -/
theorem quotation_lossless_layers :
    (∀ a ∈ [Sexp.regex "a\\/b" "g", .string "x\"y", .group .square [.string "\\\"", .symbol "z"]],
        a.IsRead)
      ∧ ∃ literal decoded : String,
        (Sexp.group .round [.symbol "quote", .regex "a\\/b" "g", .string "x\"y",
            .group .square [.string "\\\"", .symbol "z"]]).lowered .initial
          = (.ok literal, .initial)
        ∧ Literal.unquote? literal.toList = some decoded.toList
        ∧ decoded = "/a\\/b/g \"x\\\"y\" [\"\\\"\" z]"
        ∧ (Reader.ofText decoded).readAll.error = none
        ∧ (Reader.ofText decoded).readAll.expressions.length = 3 := by
  have hread : (Reader.ofText "(f /a\\/b/g 'x\"y' [\"\\\"\" z])").readAll.expressions
      = [.group .round [.symbol "f", .regex "a\\/b" "g", .string "x\"y",
          .group .square [.string "\\\"", .symbol "z"]]] := by with_unfolding_all rfl
  have hargs : ∀ a ∈ [Sexp.regex "a\\/b" "g", .string "x\"y",
      .group .square [.string "\\\"", .symbol "z"]], a.IsRead := by
    intro a ha
    refine ⟨_, _, by rw [hread]; exact List.mem_singleton_self _, ?_⟩
    exact .inside (List.mem_cons_of_mem _ ha) (.self a)
  refine ⟨hargs, ?_⟩
  obtain ⟨literal, decoded, hlower, hunquote, hdecoded, herror, hagain⟩ :=
    quotation_lossless hargs (s := .initial) (by decide) rfl
  exact ⟨literal, decoded, hlower, hunquote, hdecoded, herror, hagain.length_eq⟩

end FormScript
