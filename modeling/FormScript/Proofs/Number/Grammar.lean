import FormScript.Proofs.Number.RoundTrip
import FormScript.Proofs.Text.Pattern

/-!
# The grammar of numerals

A word can be recognised as a number with two patterns. The first (`Numeral.shape`) is loose: all its parts
may be missing. The second (`Numeral.leading`) is strict, but need not take the word to its end; what it
takes is converted. Together they accept the words of one grammar (`Numeral.grammar`), and of an accepted
word nothing is left over but an `e` at the end (`numeral_grammar_exact`). `Numeral.ofWord?` does the same
in one pass.

The argument goes through the words of numerals (`Numeral.spelling`). Each of the patterns describes the
words of certain numerals, and what is found in the word of a numeral can be told part by part, since no
part can begin where the one before it could go on.
-/

namespace FormScript

/-! ## The patterns of numerals -/

namespace Numeral

open Pattern

/-- Any number of digits: `[0-9]*` -/
def digits : Pattern := .many Char.isDigit

/-- At least one digit: `[0-9]+` -/
def someDigits : Pattern := .several Char.isDigit

/-- A minus in front of a pattern, or none: `-?` -/
def signed (p : Pattern) : Pattern := .seq (.optional (.literal '-')) p

/-- Digits, with a point or without, at least one of them: `[0-9]+([.][0-9]*)?|[.][0-9]+` -/
def mantissa : Pattern :=
  .either (.seq someDigits (.optional (.seq (.literal '.') digits))) (.seq (.literal '.') someDigits)

/-- What a word must look like from its first character to its last:
    `-?[0-9]*[.]?[0-9]*e?[0-9]*` -/
def shape : Pattern :=
  signed (.seq digits (.seq (.optional (.literal '.'))
    (.seq digits (.seq (.optional (.literal 'e')) digits))))

/-- What is taken of a word of that shape: a mantissa and `(e[0-9]+)?`, an exponent if it has digits. -/
def leading : Pattern := signed (.seq mantissa (.optional (.seq (.literal 'e') someDigits)))

/-- The words that are numerals: a mantissa and `(e[0-9]*)?`, an exponent whose digits may be missing. -/
def grammar : Pattern := signed (.seq mantissa (.optional (.seq (.literal 'e') digits)))

/-- The texts that can be converted to a number, with the three ways to write a mantissa side by
    side. -/
def convertible : Pattern :=
  signed (.seq
    (.either someDigits (.either (.seq someDigits (.seq (.literal '.') digits))
      (.seq digits (.seq (.literal '.') someDigits))))
    (.optional (.seq (.literal 'e') someDigits)))

/-- The number nearest to what a convertible text writes. -/
def convert? (text : List Char) : Option Number :=
  if convertible.accepts text then
    let front := text.takeWhile (· ≠ 'e')
    let power := valueOf (text.dropWhile (· ≠ 'e')).tail
    let places := (front.dropWhile (· ≠ '.')).tail.length
    let decimal : Decimal := ⟨valueOf (front.filter Char.isDigit), (power : Int) - places⟩
    some (decimal.toNumber (decide (text.head? = some '-')))
  else none

/-- A word as a number, by the two patterns. -/
def scanned? (word : List Char) : Option Number :=
  if shape.accepts word then (leading.first? word).bind fun cut => convert? cut.1 else none

/-! ## Numerals taken apart -/

/-- The word of a numeral, with its sign in front. -/
theorem spelling_eq (n : Numeral) :
    n.spelling = if n.negative then '-' :: (n.whole ++ (n.fractionWord ++ n.exponentWord))
      else n.whole ++ (n.fractionWord ++ n.exponentWord) := by
  unfold spelling word
  cases n.negative with
  | true => simp
  | false => simp

/-- A mark and the digits behind it are cut off in front of a text. -/
theorem marked_spec {mark : Char} {cs rest : List Char} {digits : Option (List Char)}
    (h : marked mark cs = (digits, rest)) :
    (∀ c ∈ digits.getD [], c.isDigit = true) ∧ digits.elim [] (mark :: ·) ++ rest = cs := by
  cases cs with
  | nil =>
    cases h
    exact ⟨List.forall_mem_nil _, rfl⟩
  | cons d cs =>
    simp only [marked] at h
    split at h
    · rename_i hd
      cases h
      refine ⟨fun c hc => List.mem_takeWhile_imp hc, ?_⟩
      rw [Option.elim_some, List.cons_append, List.takeWhile_append_dropWhile, hd]
    · cases h
      exact ⟨List.forall_mem_nil _, rfl⟩

/-- The sign goes back in front of what it was taken from. -/
theorem sign_unsigned {word unsigned : List Char} {negative : Bool}
    (hsign : decide (word.head? = some '-') = negative)
    (hunsigned : (if negative then word.tail else word) = unsigned) :
    (if negative then '-' :: unsigned else unsigned) = word := by
  subst hunsigned
  cases negative with
  | false => rfl
  | true =>
    obtain ⟨tail, rfl⟩ := List.head?_eq_some_iff.mp (of_decide_eq_true hsign)
    rfl

/-- **A word is taken apart if it is the word of a numeral**, and then into the parts of that. -/
theorem ofWord?_eq_some_iff {word : List Char} {n : Numeral} :
    ofWord? word = some n ↔ n.Digital ∧ n.significand ≠ [] ∧ n.spelling = word := by
  constructor
  · intro h
    unfold ofWord? at h
    simp only at h
    generalize hsign : decide (word.head? = some '-') = negative at h
    generalize hunsigned : (if negative = true then word.tail else word) = unsigned at h
    have hword := sign_unsigned hsign hunsigned
    have hwhole : ∀ c ∈ unsigned.takeWhile Char.isDigit, c.isDigit = true :=
      fun c hc => List.mem_takeWhile_imp hc
    have hspan := @List.takeWhile_append_dropWhile _ Char.isDigit unsigned
    cases hdot : marked '.' (unsigned.dropWhile Char.isDigit) with
    | mk fraction afterFraction =>
      cases he : marked 'e' afterFraction with
      | mk exponent afterExponent =>
        obtain ⟨hfraction, hdrop⟩ := marked_spec hdot
        obtain ⟨hexponent, hafter⟩ := marked_spec he
        simp only [hdot, he] at h
        split at h
        · rename_i hparts
          cases h
          -- nothing is left over, so the parts make up the word again
          rw [List.isEmpty_iff] at hparts
          rw [hparts.1, List.append_nil] at hafter
          refine ⟨⟨hwhole, hfraction, hexponent⟩, ?_, ?_⟩
          · simpa using hparts.2
          · rw [spelling_eq, fractionWord, exponentWord]
            simp only [hafter, hdrop, hspan, hword]
        · cases h
  · rintro ⟨hdigital, hne, rfl⟩
    exact hdigital.ofWord?_spelling hne

/-! ## What the patterns describe -/

theorem matches_signed {p : Pattern} {cs : List Char} :
    (signed p).Matches cs ↔
      ∃ negative : Bool, ∃ u, p.Matches u ∧ cs = if negative then '-' :: u else u := by
  constructor
  · rintro ⟨s, u, hsign, hu, rfl⟩
    rcases hsign with hsign | hsign
    · rw [matches_literal.mp hsign]
      exact ⟨true, u, hu, rfl⟩
    · rw [show s = [] from hsign]
      exact ⟨false, u, hu, rfl⟩
  · rintro ⟨negative, u, hu, rfl⟩
    cases negative with
    | true => exact ⟨['-'], u, .inl (matches_literal.mpr rfl), hu, rfl⟩
    | false => exact ⟨[], u, .inr rfl, hu, rfl⟩

/-- A mark with a pattern behind it, or nothing. -/
theorem matches_marked {mark : Char} {p : Pattern} {cs : List Char} :
    (optional (.seq (.literal mark) p)).Matches cs ↔ ∃ run : Option (List Char),
      (∀ u, run = some u → p.Matches u) ∧ cs = run.elim [] (mark :: ·) := by
  constructor
  · rintro (⟨_, u, hmark, hu, rfl⟩ | rfl)
    · rw [matches_literal.mp hmark]
      exact ⟨some u, fun v hv => Option.some.inj hv ▸ hu, rfl⟩
    · exact ⟨none, fun v hv => absurd hv (Option.some_ne_none v).symm, rfl⟩
  · rintro ⟨run, hrun, rfl⟩
    cases run with
    | none => exact .inr rfl
    | some u => exact .inl ⟨[mark], u, matches_literal.mpr rfl, hrun u rfl, rfl⟩

theorem digits_getD_iff {run : Option (List Char)} :
    (∀ c ∈ run.getD [], c.isDigit = true) ↔ ∀ u, run = some u → digits.Matches u := by
  cases run with
  | none => simp
  | some u => simp [digits, Matches]

/-- A mantissa has digits in front of the point or behind it. -/
theorem matches_mantissa {cs : List Char} :
    mantissa.Matches cs ↔ ∃ whole, ∃ fraction : Option (List Char),
      (∀ c ∈ whole, c.isDigit = true) ∧ (∀ c ∈ fraction.getD [], c.isDigit = true)
      ∧ whole ++ fraction.getD [] ≠ [] ∧ cs = whole ++ fraction.elim [] ('.' :: ·) := by
  constructor
  · rintro (⟨whole, _, hrun, hmark, rfl⟩ | ⟨_, u, hpoint, hrun, rfl⟩)
    · obtain ⟨hne, hwhole⟩ := matches_several.mp hrun
      obtain ⟨fraction, hfraction, rfl⟩ := matches_marked.mp hmark
      exact ⟨whole, fraction, hwhole, digits_getD_iff.mpr hfraction, by simp [hne], rfl⟩
    · obtain ⟨hne, hu⟩ := matches_several.mp hrun
      rw [matches_literal.mp hpoint]
      exact ⟨[], some u, List.forall_mem_nil _, hu, hne, rfl⟩
  · rintro ⟨whole, fraction, hwhole, hfraction, hne, rfl⟩
    by_cases hnil : whole = []
    · subst hnil
      cases fraction with
      | none => exact absurd rfl hne
      | some u =>
        exact .inr ⟨['.'], u, matches_literal.mpr rfl, matches_several.mpr ⟨hne, hfraction⟩, rfl⟩
    · exact .inl ⟨whole, _, matches_several.mpr ⟨hnil, hwhole⟩,
        matches_marked.mpr ⟨fraction, digits_getD_iff.mp hfraction, rfl⟩, rfl⟩

/-- A mantissa and an exponent are the word of a numeral. -/
theorem matches_numeral (p : Pattern) {cs : List Char}
    (hp : ∀ u, p.Matches u → digits.Matches u) :
    (signed (.seq mantissa (.optional (.seq (.literal 'e') p)))).Matches cs ↔
      ∃ n : Numeral, n.Digital ∧ n.significand ≠ [] ∧ (∀ u, n.exponent = some u → p.Matches u)
        ∧ n.spelling = cs := by
  rw [matches_signed]
  constructor
  · rintro ⟨negative, _, ⟨_, _, hmantissa, hmark, rfl⟩, rfl⟩
    obtain ⟨whole, fraction, hwhole, hfraction, hne, rfl⟩ := matches_mantissa.mp hmantissa
    obtain ⟨exponent, hexponent, rfl⟩ := matches_marked.mp hmark
    have hdigits := digits_getD_iff.mpr fun u hu => hp u (hexponent u hu)
    refine ⟨⟨negative, whole, fraction, exponent⟩, ⟨hwhole, hfraction, hdigits⟩, hne, hexponent, ?_⟩
    rw [spelling_eq, List.append_assoc]
    rfl
  · rintro ⟨n, hdigital, hne, hexponent, rfl⟩
    refine ⟨n.negative, _, ⟨n.whole ++ n.fractionWord, n.exponentWord, ?_, ?_, rfl⟩, ?_⟩
    · exact matches_mantissa.mpr
        ⟨n.whole, n.fraction, hdigital.whole_digits, hdigital.fraction_digits, hne, rfl⟩
    · exact matches_marked.mpr ⟨n.exponent, hexponent, rfl⟩
    · rw [spelling_eq, List.append_assoc]

theorem matches_grammar {cs : List Char} :
    grammar.Matches cs ↔ ∃ n : Numeral, n.Digital ∧ n.significand ≠ [] ∧ n.spelling = cs := by
  unfold grammar
  rw [matches_numeral digits fun u hu => hu]
  constructor
  · rintro ⟨n, hdigital, hne, -, hspelling⟩
    exact ⟨n, hdigital, hne, hspelling⟩
  · rintro ⟨n, hdigital, hne, hspelling⟩
    exact ⟨n, hdigital, hne, digits_getD_iff.mp hdigital.exponent_digits, hspelling⟩

/-- What the leading pattern takes is the word of a numeral, and an exponent in it has digits. -/
theorem numeral_of_leading {cs : List Char} (h : leading.Matches cs) :
    ∃ n : Numeral, n.Digital ∧ n.significand ≠ [] ∧ n.exponent ≠ some [] ∧ n.spelling = cs := by
  unfold leading at h
  rw [matches_numeral someDigits fun u hu => (matches_several.mp hu).2] at h
  obtain ⟨n, hdigital, hne, hexponent, hspelling⟩ := h
  refine ⟨n, hdigital, hne, fun hnil => ?_, hspelling⟩
  exact (matches_several.mp (hexponent [] hnil)).1 rfl

/-- An optional mark in front of digits. -/
theorem exists_optional_literal (mark : Char) (run : Option (List Char)) :
    ∃ u, (optional (.literal mark)).Matches u ∧ run.elim [] (mark :: ·) = u ++ run.getD [] := by
  cases run with
  | none => exact ⟨[], .inr rfl, rfl⟩
  | some run => exact ⟨[mark], .inl (matches_literal.mpr rfl), rfl⟩

/-- Where the point is missing, the digits on its two sides run together, and so do those around a missing
    `e`. -/
theorem matches_shape {cs : List Char} :
    shape.Matches cs ↔ ∃ n : Numeral, n.Digital ∧ n.spelling = cs := by
  have hjoin : ∀ {u v}, digits.Matches u → digits.Matches v → digits.Matches (u ++ v) :=
    fun hu hv c hc => (List.mem_append.mp hc).elim (hu c) (hv c)
  have hnone : digits.Matches [] := List.forall_mem_nil _
  unfold shape
  rw [matches_signed]
  constructor
  · rintro ⟨negative, _, ⟨a, _, ha, ⟨p, _, hp, ⟨b, _, hb, ⟨e, c, he, hc, rfl⟩, rfl⟩, rfl⟩, rfl⟩, rfl⟩
    simp only [spelling_eq, fractionWord, exponentWord]
    rcases hp with hp | rfl <;> rcases he with he | rfl
    · rw [matches_literal.mp hp, matches_literal.mp he]
      exact ⟨⟨negative, a, some b, some c⟩, ⟨ha, hb, hc⟩, by simp⟩
    · rw [matches_literal.mp hp]
      exact ⟨⟨negative, a, some (b ++ c), none⟩, ⟨ha, hjoin hb hc, hnone⟩, by simp⟩
    · rw [matches_literal.mp he]
      exact ⟨⟨negative, a ++ b, none, some c⟩, ⟨hjoin ha hb, hnone, hc⟩, by simp⟩
    · exact ⟨⟨negative, a ++ (b ++ c), none, none⟩, ⟨hjoin ha (hjoin hb hc), hnone, hnone⟩, by simp⟩
  · rintro ⟨n, ⟨hwhole, hfraction, hexponent⟩, rfl⟩
    obtain ⟨p, hp, hpoint⟩ := exists_optional_literal '.' n.fraction
    obtain ⟨e, he, hmark⟩ := exists_optional_literal 'e' n.exponent
    refine ⟨n.negative, n.whole ++ (p ++ (n.fraction.getD [] ++ (e ++ n.exponent.getD []))), ?_, ?_⟩
    · exact ⟨_, _, hwhole, ⟨_, _, hp, ⟨_, _, hfraction, ⟨_, _, he, hexponent, rfl⟩, rfl⟩, rfl⟩, rfl⟩
    · rw [spelling_eq, fractionWord, exponentWord, hpoint, hmark, List.append_assoc]

/-! ## What is found in a word -/

theorem first?_digits {run rest : List Char} (h : ∀ c ∈ run, c.isDigit = true)
    (hrest : StopsDigits rest) : digits.first? (run ++ rest) = some (run, rest) := by
  unfold digits
  rw [first?_many, (span_digits h hrest).1, (span_digits h hrest).2]

theorem first?_someDigits {run rest : List Char} (hne : run ≠ []) (h : ∀ c ∈ run, c.isDigit = true)
    (hrest : StopsDigits rest) : someDigits.first? (run ++ rest) = some (run, rest) := by
  obtain ⟨c, run, rfl⟩ := List.exists_cons_of_ne_nil hne
  obtain ⟨hc, hrun⟩ := List.forall_mem_cons.mp h
  have hone : (one Char.isDigit).first? (c :: (run ++ rest)) = some ([c], run ++ rest) := by
    simp [first?, cuts, hc]
  exact first?_seq hone (first?_digits hrun hrest)

theorem cuts_someDigits_nil {cs : List Char} (h : StopsDigits cs) : someDigits.cuts cs = [] :=
  cuts_seq_nil_of_left (cuts_one_nil h)

/-- A mark is taken with the digits behind it, -/
theorem first?_marked {mark : Char} {p : Pattern} {run rest : List Char}
    (h : p.first? (run ++ rest) = some (run, rest)) :
    (Pattern.seq (.literal mark) p).first? (mark :: (run ++ rest)) = some (mark :: run, rest) :=
  first?_seq (first?_literal mark _) h

/-- but not without. -/
theorem cuts_marked_nil {mark : Char} {cs : List Char}
    (h : ∀ rest, cs = mark :: rest → StopsDigits rest) :
    (Pattern.seq (.literal mark) someDigits).cuts cs = [] := by
  apply cuts_seq_nil
  intro cut hcut
  obtain ⟨hmark, hcs⟩ := mem_cuts.mp hcut
  rw [matches_literal.mp hmark] at hcs
  exact cuts_someDigits_nil (h cut.2 hcs)

/-- A mantissa is taken whole where digits and points end. -/
theorem first?_mantissa {whole rest : List Char} {fraction : Option (List Char)}
    (hwhole : ∀ c ∈ whole, c.isDigit = true) (hfraction : ∀ c ∈ fraction.getD [], c.isDigit = true)
    (hne : whole ++ fraction.getD [] ≠ []) (hrest : StopsDigits rest)
    (hpoint : rest.head? ≠ some '.') :
    mantissa.first? (whole ++ (fraction.elim [] ('.' :: ·) ++ rest))
      = some (whole ++ fraction.elim [] ('.' :: ·), rest) := by
  by_cases hnil : whole = []
  · subst hnil
    cases fraction with
    | none => exact absurd rfl hne
    | some run =>
      -- the text begins with the point, so only the second alternative can match
      have hstop : StopsDigits ('.' :: (run ++ rest)) := fun c hc => by cases hc; rfl
      unfold mantissa
      rw [List.nil_append, Option.elim_some, List.cons_append,
        first?_either_of_nil (cuts_seq_nil_of_left (cuts_someDigits_nil hstop))]
      exact first?_marked (first?_someDigits hne hfraction hrest)
  · -- the first alternative matches, with the point if there is one
    apply first?_either
    cases fraction with
    | none =>
      have hnone := cuts_seq_nil_of_left (q := digits) (cuts_literal_nil hpoint)
      exact first?_seq (first?_someDigits hnil hwhole hrest) (first?_optional_of_nil hnone)
    | some run =>
      have hstop : StopsDigits ('.' :: (run ++ rest)) := fun c hc => by cases hc; rfl
      exact first?_seq (first?_someDigits hnil hwhole hstop)
        (first?_either (first?_marked (first?_digits hfraction hrest)))

/-- Without digits there is no mantissa. -/
theorem cuts_mantissa_nil {cs : List Char} (h : StopsDigits cs)
    (hpoint : ∀ rest, cs = '.' :: rest → StopsDigits rest) : mantissa.cuts cs = [] := by
  have hwhole := cuts_seq_nil_of_left (q := optional (.seq (.literal '.') digits)) (cuts_someDigits_nil h)
  rw [mantissa, cuts, hwhole, cuts_marked_nil hpoint]
  rfl

/-- A minus is taken where there is one. -/
theorem first?_signed {p : Pattern} (negative : Bool) {cs u rest : List Char} (hcs : cs.head? ≠ some '-')
    (h : p.first? cs = some (u, rest)) :
    (signed p).first? (if negative then '-' :: cs else cs)
      = some (if negative then '-' :: u else u, rest) := by
  cases negative with
  | true => exact first?_seq (first?_either (first?_literal '-' cs)) h
  | false => exact first?_seq (first?_optional_of_nil (cuts_literal_nil hcs)) h

theorem cuts_signed_nil {p : Pattern} (negative : Bool) {cs : List Char} (hcs : cs.head? ≠ some '-')
    (h : p.cuts cs = []) (hminus : p.cuts ('-' :: cs) = []) :
    (signed p).cuts (if negative then '-' :: cs else cs) = [] := by
  apply cuts_seq_nil
  rintro ⟨sign, rest⟩ hcut
  obtain ⟨hsign, heq⟩ := mem_cuts.mp hcut
  show p.cuts rest = []
  -- the minus is taken, or it is left and the pattern fails on it
  rcases hsign with hsign | rfl
  · rw [matches_literal.mp hsign] at heq
    cases negative with
    | true =>
      have hrest : cs = rest := (List.cons.inj heq).2
      rw [← hrest, h]
    | false => exact absurd (congrArg List.head? heq) hcs
  · cases negative with
    | true =>
      have hrest : '-' :: cs = rest := heq
      rw [← hrest, hminus]
    | false =>
      have hrest : cs = rest := heq
      rw [← hrest, h]

/-- The numeral without an exponent that has no digits. -/
def settled (n : Numeral) : Numeral :=
  { n with exponent := if n.exponent = some [] then none else n.exponent }

/-- The `e` of an exponent that has no digits. -/
def leftover (n : Numeral) : List Char := if n.exponent = some [] then ['e'] else []

theorem settled_exponent_ne (n : Numeral) : n.settled.exponent ≠ some [] := by
  by_cases hnil : n.exponent = some []
  · simp [settled, hnil]
  · simp [settled, hnil]

theorem settled_exponent_getD (n : Numeral) : n.settled.exponent.getD [] = n.exponent.getD [] := by
  by_cases hnil : n.exponent = some []
  · simp [settled, hnil]
  · simp [settled, hnil]

theorem settled_value (n : Numeral) : n.settled.value = n.value := by
  unfold value decimal
  rw [n.settled_exponent_getD]
  rfl

theorem Digital.settled {n : Numeral} (h : n.Digital) : n.settled.Digital := by
  refine ⟨h.whole_digits, h.fraction_digits, ?_⟩
  rw [n.settled_exponent_getD]
  exact h.exponent_digits

/-- An exponent is taken if it has digits. -/
theorem first?_exponent {n : Numeral} (h : n.Digital) :
    (optional (.seq (.literal 'e') someDigits)).first? n.exponentWord
      = some (n.settled.exponentWord, n.leftover) := by
  have hdigits := h.exponent_digits
  have hend : StopsDigits [] := fun c hc => by cases hc
  unfold exponentWord leftover Numeral.settled
  cases hexponent : n.exponent with
  | none => exact first?_optional_of_nil (cuts_marked_nil fun rest hrest => by cases hrest)
  | some run =>
    rw [hexponent] at hdigits
    by_cases hrun : run = []
    · have hlone : ∀ rest, ['e'] = 'e' :: rest → StopsDigits rest := by
        intro rest hrest
        cases hrest
        exact hend
      simp only [hrun, if_true]
      exact first?_optional_of_nil (cuts_marked_nil hlone)
    · have hsome : (Pattern.seq (.literal 'e') someDigits).first? ('e' :: (run ++ []))
          = some ('e' :: run, []) := first?_marked (first?_someDigits hrun hdigits hend)
      rw [List.append_nil] at hsome
      simp only [Option.some.injEq, hrun, if_false]
      exact first?_either hsome

/-- **The leading pattern takes a numeral but for the `e` of an empty exponent.** -/
theorem Digital.first?_leading {n : Numeral} (h : n.Digital) (hne : n.significand ≠ []) :
    leading.first? n.spelling = some (n.settled.spelling, n.leftover) := by
  have hmantissa := first?_mantissa h.whole_digits h.fraction_digits hne n.stopsDigits_exponentWord
    (n.head?_exponentWord_ne (by decide))
  have hunsigned := first?_seq hmantissa (first?_exponent h)
  have hfound := first?_signed n.negative h.head?_unsigned_ne hunsigned
  rw [List.append_assoc] at hfound
  rw [spelling_eq, spelling_eq]
  exact hfound

/-- Nothing is found in a word without digits in front of the exponent. -/
theorem Digital.first?_leading_none {n : Numeral} (h : n.Digital) (hnil : n.significand = []) :
    leading.first? n.spelling = none := by
  obtain ⟨hwhole, hfraction⟩ := List.append_eq_nil_iff.mp hnil
  have hpoint : ∀ rest, n.fractionWord ++ n.exponentWord = '.' :: rest → StopsDigits rest := by
    intro rest hrest
    unfold fractionWord at hrest
    cases hrun : n.fraction with
    | none =>
      rw [hrun] at hrest
      exact absurd (congrArg List.head? hrest) (n.head?_exponentWord_ne (by decide))
    | some run =>
      rw [hrun] at hrest hfraction
      rw [show run = [] from hfraction] at hrest
      rw [← (List.cons.inj hrest).2]
      exact n.stopsDigits_exponentWord
  have hhead := h.head?_unsigned_ne
  rw [spelling_eq]
  rw [hwhole, List.nil_append] at hhead ⊢
  have hplain := cuts_mantissa_nil n.stopsDigits_fractionWord hpoint
  -- leaving the minus to the mantissa does not help, for it is neither digit nor point
  have hminus : mantissa.cuts ('-' :: (n.fractionWord ++ n.exponentWord)) = [] :=
    cuts_mantissa_nil (fun c hc => by cases hc; rfl) (fun rest hrest => by cases hrest)
  rw [leading, first?, cuts_signed_nil n.negative hhead (cuts_seq_nil_of_left hplain)
    (cuts_seq_nil_of_left hminus)]
  rfl

/-! ## Conversion -/

theorem Digital.convertible {n : Numeral} (h : n.Digital) (hne : n.significand ≠ [])
    (hexponent : n.exponent ≠ some []) : convertible.Matches n.spelling := by
  have hwhole := h.whole_digits
  have hfraction := h.fraction_digits
  have hdigits := h.exponent_digits
  refine matches_signed.mpr ⟨n.negative, (n.whole ++ n.fractionWord) ++ n.exponentWord,
    ⟨_, _, ?_, matches_marked.mpr ⟨n.exponent, ?_, rfl⟩, rfl⟩, ?_⟩
  · unfold significand at hne
    unfold fractionWord
    cases hrun : n.fraction with
    | none =>
      rw [hrun, Option.getD_none, List.append_nil] at hne
      rw [Option.elim_none, List.append_nil]
      exact .inl (matches_several.mpr ⟨hne, hwhole⟩)
    | some run =>
      rw [hrun] at hne hfraction
      by_cases hnil : n.whole = []
      · rw [hnil] at hne ⊢
        exact .inr (.inr ⟨[], _, List.forall_mem_nil _,
          ⟨['.'], run, matches_literal.mpr rfl, matches_several.mpr ⟨hne, hfraction⟩, rfl⟩, rfl⟩)
      · exact .inr (.inl ⟨n.whole, _, matches_several.mpr ⟨hnil, hwhole⟩,
          ⟨['.'], run, matches_literal.mpr rfl, hfraction, rfl⟩, rfl⟩)
  · intro run hrun
    rw [hrun] at hdigits hexponent
    exact matches_several.mpr ⟨fun hnil => hexponent (congrArg some hnil), hdigits⟩
  · rw [spelling_eq, List.append_assoc]

/-- What stands in front of a mark and what stands behind it. -/
theorem around_mark {mark : Char} {front : List Char} (h : ∀ c ∈ front, c ≠ mark)
    (run : Option (List Char)) :
    (front ++ run.elim [] (mark :: ·)).takeWhile (· ≠ mark) = front
      ∧ ((front ++ run.elim [] (mark :: ·)).dropWhile (· ≠ mark)).tail = run.getD [] := by
  have hfront : ∀ c ∈ front, decide (c ≠ mark) = true := fun c hc => decide_eq_true (h c hc)
  rw [List.takeWhile_append_of_pos hfront, List.dropWhile_append_of_pos hfront]
  cases run with
  | none => simp
  | some run => simp

theorem Digital.filter_word {n : Numeral} (h : n.Digital) :
    n.word.filter Char.isDigit = n.significand := by
  have hfraction := h.fraction_digits
  have hwhole : n.whole.filter Char.isDigit = n.whole := List.filter_eq_self.mpr h.whole_digits
  have hword : (n.whole ++ n.fractionWord).filter Char.isDigit = n.significand := by
    rw [List.filter_append, hwhole, fractionWord, significand]
    cases hrun : n.fraction with
    | none => rfl
    | some run =>
      rw [hrun, Option.getD_some] at hfraction
      rw [Option.elim_some, List.filter_cons_of_neg (by decide), List.filter_eq_self.mpr hfraction]
      rfl
  unfold word
  split
  · rw [List.filter_cons_of_neg (by decide), hword]
  · exact hword

theorem Digital.word_ne_e {n : Numeral} (h : n.Digital) : ∀ c ∈ n.word, c ≠ 'e' := by
  intro c hc
  rcases h.mem_word hc with rfl | rfl | hdigit
  · decide
  · decide
  · exact ne_of_class hdigit rfl

/-- The parts of a numeral are found in its word. -/
theorem Digital.convert?_spelling {n : Numeral} (h : n.Digital) (hne : n.significand ≠ [])
    (hexponent : n.exponent ≠ some []) : convert? n.spelling = some n.value := by
  have hfront : ∀ c ∈ (if n.negative then '-' :: n.whole else n.whole), c ≠ '.' := by
    have hwhole : ∀ c ∈ n.whole, c ≠ '.' := fun c hc => ne_of_class (h.whole_digits c hc) rfl
    split
    · exact List.forall_mem_cons.mpr ⟨by decide, hwhole⟩
    · exact hwhole
  have hsplit : n.word = (if n.negative then '-' :: n.whole else n.whole) ++ n.fractionWord := by
    unfold word
    split <;> rfl
  obtain ⟨htake, hdrop⟩ : n.spelling.takeWhile (· ≠ 'e') = n.word
      ∧ (n.spelling.dropWhile (· ≠ 'e')).tail = n.exponent.getD [] := around_mark h.word_ne_e n.exponent
  have hplaces : (n.word.dropWhile (· ≠ '.')).tail = n.fraction.getD [] := by
    rw [hsplit]
    exact (around_mark hfront n.fraction).2
  unfold convert?
  rw [if_pos (accepts_iff.mpr (h.convertible hne hexponent)), h.head?_spelling]
  simp only [htake, hdrop, hplaces, h.filter_word]
  rfl

/-! ## One grammar -/

/-- The word of a numeral ends with an `e` if its exponent has no digits. -/
theorem Digital.leftover_eq {n : Numeral} (h : n.Digital) :
    n.leftover = if n.spelling.getLast? = some 'e' then ['e'] else [] := by
  unfold leftover spelling exponentWord
  cases hexponent : n.exponent with
  | none =>
    have hlast : n.word.getLast? ≠ some 'e' := fun hlast =>
      h.word_ne_e 'e' (List.mem_of_getLast? hlast) rfl
    simp [hlast]
  | some run =>
    by_cases hrun : run = []
    · simp [hrun]
    · have hdigits := h.exponent_digits
      rw [hexponent, Option.getD_some] at hdigits
      have hlast : run.getLast? ≠ some 'e' := by
        intro hlast
        exact absurd (hdigits 'e' (List.mem_of_getLast? hlast)) (by decide)
      have hend : (n.word ++ 'e' :: run).getLast? = run.getLast? := by
        rw [← List.singleton_append, ← List.append_assoc, List.getLast?_append,
          List.getLast?_eq_some_getLast hrun, Option.some_or]
      simp [hend, hlast, hrun]

/-- Numerals are scanned as they are taken apart. -/
theorem scanned?_eq (word : List Char) : scanned? word = (ofWord? word).map value := by
  cases hn : ofWord? word with
  | some n =>
    obtain ⟨hdigital, hne, rfl⟩ := ofWord?_eq_some_iff.mp hn
    have hshape : shape.accepts n.spelling = true :=
      accepts_iff.mpr (matches_shape.mpr ⟨n, hdigital, rfl⟩)
    have hconvert := hdigital.settled.convert?_spelling hne n.settled_exponent_ne
    rw [scanned?, if_pos hshape, hdigital.first?_leading hne, Option.bind_some, hconvert,
      n.settled_value, Option.map_some]
  | none =>
    unfold scanned?
    split
    · rename_i hshape
      obtain ⟨n, hdigital, rfl⟩ := matches_shape.mp (accepts_iff.mp hshape)
      have hnil : n.significand = [] := by
        by_contra hne
        rw [hdigital.ofWord?_spelling hne] at hn
        cases hn
      rw [hdigital.first?_leading_none hnil]
      rfl
    · rfl

end Numeral

/-- **The two patterns amount to one grammar.** A word is taken apart as a numeral exactly if it is in the
    grammar, and its value is the number that the two patterns give. What the leading pattern finds in a word
    of the grammar is the whole word, but for an `e` at its end with no digits behind it. Whatever the leading
    pattern finds can be converted. -/
theorem numeral_grammar_exact (word : List Char) :
    Numeral.scanned? word = (Numeral.ofWord? word).map Numeral.value
      ∧ ((Numeral.ofWord? word).isSome = true ↔ Numeral.grammar.Matches word)
      ∧ (Numeral.grammar.Matches word → ∃ taken rest,
          Numeral.leading.first? word = some (taken, rest) ∧ word = taken ++ rest
            ∧ rest = if word.getLast? = some 'e' then ['e'] else [])
      ∧ ∀ taken rest, Numeral.leading.first? word = some (taken, rest) →
          (Numeral.convert? taken).isSome = true := by
  refine ⟨Numeral.scanned?_eq word, ?_, ?_, ?_⟩
  · rw [Option.isSome_iff_exists, Numeral.matches_grammar]
    simp only [Numeral.ofWord?_eq_some_iff]
  · intro h
    obtain ⟨n, hdigital, hne, rfl⟩ := Numeral.matches_grammar.mp h
    have hfound := hdigital.first?_leading hne
    exact ⟨_, _, hfound, (Pattern.matches_of_first? hfound).2, hdigital.leftover_eq⟩
  · intro taken rest hfound
    obtain ⟨n, hdigital, hne, hexponent, rfl⟩ :=
      Numeral.numeral_of_leading (Pattern.matches_of_first? hfound).1
    rw [hdigital.convert?_spelling hne hexponent]
    rfl

/-- A point without digits in front of it, and an `e` without digits behind it. -/
theorem numeral_grammar_exact_lone_e :
    Numeral.grammar.Matches "-.5e".toList
      ∧ Numeral.leading.first? "-.5e".toList = some ("-.5".toList, ['e'])
      ∧ (Numeral.convert? "-.5".toList).isSome = true := by
  have hgrammar : Numeral.grammar.Matches "-.5e".toList := Pattern.accepts_iff.mp (by decide)
  have hexact := numeral_grammar_exact "-.5e".toList
  obtain ⟨taken, rest, hfound, hword, hrest⟩ := hexact.2.2.1 hgrammar
  have hrest : rest = ['e'] := hrest
  subst hrest
  have htaken : taken = "-.5".toList := by
    have hcut : "-.5".toList ++ ['e'] = taken ++ ['e'] := hword
    exact (List.append_cancel_right hcut).symm
  subst htaken
  exact ⟨hgrammar, hfound, hexact.2.2.2 _ _ hfound⟩

end FormScript
