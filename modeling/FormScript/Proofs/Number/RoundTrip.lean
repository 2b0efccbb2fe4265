import FormScript.Number.Notation
import FormScript.Number.Numeral
import FormScript.Proofs.Number.Nearest
import Mathlib.Data.List.TakeWhile

/-!
# Spelled numbers read back

The spelling of a finite number other than zero is a numeral without exponent, and the value of that
numeral is the number (`text_numeral`). So different numbers are spelt differently (`text_injective`).

Three facts come together. The search for the fewest digits ends with a decimal that lies between the
midpoints around the magnitude, since the finest grid is finer than half a unit (`shortest_spells`); such
a decimal is rounded to the magnitude (`Spells.toNumber_eq`); and positional notation writes a decimal as
a numeral of the same value (`positional_numeral`).
-/

namespace FormScript

namespace Number

/-- The midpoints do not depend on how the ratio is written. -/
theorem between_mul_right {rank num den c : Nat} (hc : 0 < c) :
    Between rank (num * c) (den * c) ↔ Between rank num den := by
  have hle : ∀ a b : Nat, a * (den * c) ≤ 2 * (b * c) ↔ a * den ≤ 2 * b := by
    intro a b
    rw [← Nat.mul_assoc, ← Nat.mul_assoc]
    exact Nat.mul_le_mul_right_iff hc
  have hge : ∀ a b : Nat, 2 * (b * c) ≤ a * (den * c) ↔ 2 * b ≤ a * den := by
    intro a b
    rw [← Nat.mul_assoc, ← Nat.mul_assoc]
    exact Nat.mul_le_mul_right_iff hc
  have hlt : ∀ a b : Nat, a * (den * c) < 2 * (b * c) ↔ a * den < 2 * b := by
    intro a b
    rw [← Nat.mul_assoc, ← Nat.mul_assoc]
    exact Nat.mul_lt_mul_right hc
  have hgt : ∀ a b : Nat, 2 * (b * c) < a * (den * c) ↔ 2 * b < a * den := by
    intro a b
    rw [← Nat.mul_assoc, ← Nat.mul_assoc]
    exact Nat.mul_lt_mul_right hc
  constructor
  · intro h
    exact ⟨(hle _ _).mp h.above, (hge _ _).mp h.below,
      fun hodd => ⟨(hlt _ _).mp (h.strict hodd).1, (hgt _ _).mp (h.strict hodd).2⟩⟩
  · intro h
    exact ⟨(hle _ _).mpr h.above, (hge _ _).mpr h.below,
      fun hodd => ⟨(hlt _ _).mpr (h.strict hodd).1, (hgt _ _).mpr (h.strict hodd).2⟩⟩

end Number

namespace Decimal

open Number

/-! ## The search for the fewest digits -/

theorem stepsPerOne_pos : 0 < stepsPerOne := by decide +kernel

theorem unitsPerOne_pos : 0 < unitsPerOne := by decide +kernel

/-- The finest grid is finer than half a unit. -/
theorem two_unitsPerOne_le : 2 * unitsPerOne ≤ stepsPerOne := by decide +kernel

theorem stepsPerOne_eq_mul {i j : Nat} (h : i + j = 324) :
    stepsPerOne = Nat.pow 10 i * Nat.pow 10 j :=
  (congrArg (Nat.pow 10) h.symm).trans (Nat.pow_add 10 i j)

theorem stepsPerOne_mul (e : Nat) : stepsPerOne * Nat.pow 10 e = Nat.pow 10 (324 + e) :=
  (Nat.pow_add 10 324 e).symm

/-- No finite magnitude reaches `10 ^ 309`, which is `10 ^ 633` steps. -/
theorem units_infinityRank_lt :
    units infinityRank * stepsPerOne < unitsPerOne * Nat.pow 10 633 := by decide +kernel

-- numbers of hundreds of digits, which nothing below has to look into
seal unitsPerOne stepsPerOne

theorem roundsTo_iff {rank j m : Nat} :
    roundsTo rank j m = true ↔ Between rank (m * spacing j) stepsPerOne := by
  unfold roundsTo
  dsimp only
  constructor
  · intro h
    split at h
    · rename_i heven
      simp only [Bool.and_eq_true, decide_eq_true_eq] at h
      exact ⟨h.1, h.2, fun hodd => by omega⟩
    · simp only [Bool.and_eq_true, decide_eq_true_eq] at h
      exact ⟨Nat.le_of_lt h.1, Nat.le_of_lt h.2, fun _ => h⟩
  · intro h
    split
    · simp only [Bool.and_eq_true, decide_eq_true_eq]
      exact ⟨h.above, h.below⟩
    · rename_i hodd
      simp only [Bool.and_eq_true, decide_eq_true_eq]
      exact h.strict (by omega)

/-- A hit on a grid rounds to the magnitude. -/
theorem roundsTo_of_onGrid? {rank j m : Nat} (h : onGrid? rank j = some m) :
    roundsTo rank j m = true := by
  unfold onGrid? at h
  dsimp only at h
  split at h
  · rename_i hbelow habove
    cases h
    split
    · exact hbelow
    · exact habove
  · rename_i hbelow habove
    cases h
    exact hbelow
  · rename_i hbelow habove
    cases h
    exact habove
  · cases h

/-- On the finest grid there is always a hit: the point below the magnitude is nearer to it than half
    a unit, and no other magnitude is nearer than a unit. -/
theorem between_finest {rank : Nat} (hrank : 0 < rank) :
    Between rank (units rank * stepsPerOne / spacing 0 * spacing 0) stepsPerOne := by
  have hspacing : spacing 0 = unitsPerOne := Nat.mul_one unitsPerOne
  rw [hspacing]
  have hprev : units (rank - 1) + 1 ≤ units rank := units_strictMono (by omega)
  have hnext : units rank + 1 ≤ units (rank + 1) := units_lt_succ rank
  have hfine := two_unitsPerOne_le
  have hpos := unitsPerOne_pos
  have hsteps := stepsPerOne_pos
  have hdiv := Nat.div_add_mod' (units rank * stepsPerOne) unitsPerOne
  have hmod := Nat.mod_lt (units rank * stepsPerOne) hpos
  have hlow := Nat.mul_le_mul_right stepsPerOne hprev
  have hhigh := Nat.mul_le_mul_right stepsPerOne hnext
  rw [Nat.add_mul, Nat.one_mul] at hlow hhigh
  generalize units rank * stepsPerOne / unitsPerOne * unitsPerOne = point at hdiv ⊢
  have hbelow : (units (rank - 1) + units rank) * stepsPerOne < 2 * point := by
    rw [Nat.add_mul]
    omega
  have habove : 2 * point < (units rank + units (rank + 1)) * stepsPerOne := by
    rw [Nat.add_mul]
    omega
  exact ⟨Nat.le_of_lt hbelow, Nat.le_of_lt habove, fun _ => ⟨hbelow, habove⟩⟩

/-- The decimal `m * 10 ^ (j - 324)` lies between the midpoints around the magnitude of `rank`. -/
def Spells (rank : Nat) (d : Decimal) : Prop :=
  ∃ j : Nat, d.exponent = (j : Int) - 324 ∧ Between rank (d.digits * spacing j) stepsPerOne

/-- The hit on the finest grid. -/
theorem coarsest_zero_spells {rank : Nat} (hrank : 0 < rank) : Spells rank (coarsest rank 0) := by
  rw [coarsest]
  refine ⟨0, by simp, ?_⟩
  cases hgrid : onGrid? rank 0 with
  | some m =>
    rw [Option.getD_some]
    exact roundsTo_iff.mp (roundsTo_of_onGrid? hgrid)
  | none =>
    rw [Option.getD_none]
    exact between_finest hrank

/-- Every search for a coarse grid ends with a decimal that rounds to the magnitude. -/
theorem coarsest_spells {rank : Nat} (hrank : 0 < rank) (j : Nat) : Spells rank (coarsest rank j) := by
  induction j with
  | zero => exact coarsest_zero_spells hrank
  | succ j ih =>
    rw [coarsest]
    cases hgrid : onGrid? rank (j + 1) with
    | some m =>
      refine ⟨j + 1, by simp, ?_⟩
      exact roundsTo_iff.mp (roundsTo_of_onGrid? hgrid)
    | none => exact ih

theorem shortest_spells {rank : Nat} (hrank : 0 < rank) : Spells rank (shortest rank) :=
  coarsest_spells hrank (firstGrid rank)

/-! ## Reading a decimal -/

/-- A decimal that spells a magnitude other than zero is not zero. -/
theorem Spells.digits_pos {rank : Nat} {d : Decimal} (h : Spells rank d) (hrank : 0 < rank) :
    0 < d.digits := by
  obtain ⟨j, _, hbetween⟩ := h
  have hprev : units (rank - 1) + 1 ≤ units rank := units_strictMono (by omega)
  apply Nat.pos_of_ne_zero
  intro hzero
  have habove := hbetween.above
  rw [hzero, Nat.zero_mul, Nat.mul_zero] at habove
  have hproduct : 0 < (units (rank - 1) + units rank) * stepsPerOne :=
    Nat.mul_pos (by omega) stepsPerOne_pos
  omega

/-- A decimal that spells a finite magnitude is below `10 ^ 309`. -/
theorem Spells.exponent_le {rank : Nat} {d : Decimal} (h : Spells rank d) (hrank : 0 < rank)
    (hfinite : rank < infinityRank) : d.exponent ≤ 308 := by
  have hdigits := h.digits_pos hrank
  obtain ⟨j, hexponent, hbetween⟩ := h
  by_contra hlarge
  have hj : 633 ≤ j := by omega
  have htop : units rank + units (rank + 1) ≤ 2 * units infinityRank := by
    have hown := units_strictMono hfinite
    have hnext : units (rank + 1) ≤ units infinityRank := units_strictMono.monotone hfinite
    omega
  have hupper : 2 * (d.digits * spacing j) ≤ 2 * units infinityRank * stepsPerOne :=
    hbetween.below.trans (Nat.mul_le_mul_right stepsPerOne htop)
  have hpow : Nat.pow 10 633 ≤ Nat.pow 10 j := Nat.pow_le_pow_right (by decide) hj
  have hlower : unitsPerOne * Nat.pow 10 633 ≤ d.digits * spacing j := by
    calc unitsPerOne * Nat.pow 10 633 ≤ spacing j := Nat.mul_le_mul_left unitsPerOne hpow
      _ ≤ d.digits * spacing j := Nat.le_mul_of_pos_left (spacing j) hdigits
  have hgap := units_infinityRank_lt
  rw [Nat.mul_assoc] at hupper
  omega

theorem toNumber_of_whole (negative : Bool) {m e : Nat} (hm : m ≠ 0) (he : e ≤ 308) :
    toNumber negative ⟨m, e⟩ = ofRatio negative (m * Nat.pow 10 e * unitsPerOne) 1 := by
  unfold toNumber
  dsimp only
  rw [if_neg hm, if_neg (by omega), if_pos (by omega)]
  rfl

/-- **A decimal that spells a magnitude is rounded to it.** -/
theorem Spells.toNumber_eq {rank : Fin infinityRank} {d : Decimal} (h : Spells rank d)
    (hrank : 0 < rank.val) (negative : Bool) : d.toNumber negative = .finite negative rank := by
  have hdigits := h.digits_pos hrank
  have hexponentLe := h.exponent_le hrank rank.isLt
  obtain ⟨j, hexponent, hbetween⟩ := h
  by_cases hwhole : 0 ≤ d.exponent
  · obtain ⟨e, he⟩ : ∃ e : Nat, d.exponent = e := ⟨d.exponent.toNat, by omega⟩
    have hj : j = 324 + e := by omega
    have hd : d = ⟨d.digits, e⟩ := by rw [← he]
    rw [hd, toNumber_of_whole negative (by omega) (by omega)]
    apply ofRatio_eq negative Nat.one_pos
    have hregroup : d.digits * spacing j = d.digits * Nat.pow 10 e * unitsPerOne * stepsPerOne := by
      rw [spacing, hj, ← stepsPerOne_mul]
      ring
    rw [hregroup] at hbetween
    rw [← between_mul_right stepsPerOne_pos, Nat.one_mul]
    exact hbetween
  · obtain ⟨places, hplaces⟩ : ∃ places, (-d.exponent).toNat = places := ⟨_, rfl⟩
    have hj : places + j = 324 := by omega
    unfold toNumber
    rw [if_neg (by omega), if_neg (by omega), if_neg hwhole, hplaces]
    have hpow : 0 < Nat.pow 10 j := Nat.pow_pos (by decide)
    apply ofRatio_eq negative (Nat.pow_pos (by decide))
    rw [stepsPerOne_eq_mul hj] at hbetween
    have hregroup : d.digits * spacing j = d.digits * unitsPerOne * Nat.pow 10 j := by
      unfold spacing
      ring
    rw [hregroup] at hbetween
    exact (between_mul_right hpow).mp hbetween

end Decimal

/-! ## Numerals and their words -/

/-- Characters that a class tells apart are different. -/
theorem ne_of_class {p : Char → Bool} {c d : Char} (hc : p c = true) (hd : p d = false) : c ≠ d := by
  rintro rfl
  rw [hc] at hd
  cases hd

namespace Numeral

/-- A numeral without exponent that has digits before its point. -/
structure Positional (n : Numeral) : Prop where
  whole_ne : n.whole ≠ []
  whole_digits : ∀ c ∈ n.whole, c.isDigit = true
  fraction_digits : ∀ c ∈ n.fraction.getD [], c.isDigit = true
  exponent_none : n.exponent = none

/-- The point and the digits after it, if there is a point. -/
def fractionWord (n : Numeral) : List Char := n.fraction.elim [] ('.' :: ·)

/-- The word of a numeral without exponent. -/
def word (n : Numeral) : List Char :=
  if n.negative then '-' :: (n.whole ++ n.fractionWord) else n.whole ++ n.fractionWord

/-- The `e` and the digits after it, if there is an `e`. -/
def exponentWord (n : Numeral) : List Char := n.exponent.elim [] ('e' :: ·)

/-- The word that a numeral writes. -/
def spelling (n : Numeral) : List Char := n.word ++ n.exponentWord

/-- Nothing but digits stands around the point and after the `e`. -/
structure Digital (n : Numeral) : Prop where
  whole_digits : ∀ c ∈ n.whole, c.isDigit = true
  fraction_digits : ∀ c ∈ n.fraction.getD [], c.isDigit = true
  exponent_digits : ∀ c ∈ n.exponent.getD [], c.isDigit = true

/-- The text does not begin with a digit. -/
def StopsDigits (rest : List Char) : Prop := ∀ c, rest.head? = some c → c.isDigit = false

/-- A run of digits is cut off where the digits stop. -/
theorem span_digits {digits rest : List Char} (h : ∀ c ∈ digits, c.isDigit = true)
    (hrest : StopsDigits rest) :
    (digits ++ rest).takeWhile Char.isDigit = digits
      ∧ (digits ++ rest).dropWhile Char.isDigit = rest := by
  have hstop : rest.takeWhile Char.isDigit = [] ∧ rest.dropWhile Char.isDigit = rest := by
    cases rest with
    | nil => exact ⟨rfl, rfl⟩
    | cons c rest =>
      have hc : c.isDigit = false := hrest c rfl
      exact ⟨by simp [hc], by simp [hc]⟩
  rw [List.takeWhile_append_of_pos h, List.dropWhile_append_of_pos h, hstop.1, hstop.2,
    List.append_nil]
  exact ⟨rfl, rfl⟩

/-- A mark with digits behind it, or no mark, comes off in front of what begins with neither. -/
theorem marked_append {mark : Char} {digits : Option (List Char)} {rest : List Char}
    (h : ∀ c ∈ digits.getD [], c.isDigit = true) (hmark : rest.head? ≠ some mark)
    (hrest : StopsDigits rest) :
    marked mark (digits.elim [] (mark :: ·) ++ rest) = (digits, rest) := by
  cases digits with
  | none =>
    cases rest with
    | nil => rfl
    | cons c rest =>
      have hc : c ≠ mark := fun heq => hmark (congrArg some heq)
      simp [marked, hc]
  | some digits =>
    obtain ⟨htake, hdrop⟩ := span_digits h hrest
    simp only [Option.getD_some] at htake hdrop
    simp [marked, htake, hdrop]

theorem stopsDigits_exponentWord (n : Numeral) : StopsDigits n.exponentWord := by
  unfold exponentWord
  cases n.exponent with
  | none => intro c hc; cases hc
  | some digits => intro c hc; cases hc; rfl

theorem head?_exponentWord_ne (n : Numeral) {c : Char} (hc : c ≠ 'e') :
    n.exponentWord.head? ≠ some c := by
  unfold exponentWord
  cases n.exponent with
  | none => simp
  | some digits => simpa using hc.symm

theorem stopsDigits_fractionWord (n : Numeral) : StopsDigits (n.fractionWord ++ n.exponentWord) := by
  unfold fractionWord
  cases n.fraction with
  | none => exact n.stopsDigits_exponentWord
  | some digits => intro c hc; cases hc; rfl

/-- Without its sign a numeral does not begin with a minus. -/
theorem Digital.head?_unsigned_ne {n : Numeral} (h : n.Digital) :
    (n.whole ++ (n.fractionWord ++ n.exponentWord)).head? ≠ some '-' := by
  cases hwhole : n.whole with
  | nil =>
    unfold fractionWord
    cases n.fraction with
    | none => exact n.head?_exponentWord_ne (by decide)
    | some digits => simp
  | cons c whole =>
    have hc : c.isDigit = true := h.whole_digits c (hwhole ▸ List.mem_cons_self)
    simpa using ne_of_class hc rfl

theorem Digital.head?_spelling {n : Numeral} (h : n.Digital) :
    decide (n.spelling.head? = some '-') = n.negative := by
  have hhead := h.head?_unsigned_ne
  unfold spelling word
  cases n.negative with
  | true => simp
  | false => simpa using hhead

/-- **The word of a numeral is taken apart as that numeral.** -/
theorem Digital.ofWord?_spelling {n : Numeral} (h : n.Digital) (hne : n.significand ≠ []) :
    ofWord? n.spelling = some n := by
  obtain ⟨htake, hdrop⟩ := span_digits h.whole_digits n.stopsDigits_fractionWord
  have hfraction : marked '.' (n.fractionWord ++ n.exponentWord) = (n.fraction, n.exponentWord) :=
    marked_append h.fraction_digits (n.head?_exponentWord_ne (by decide)) n.stopsDigits_exponentWord
  have hexponent : marked 'e' n.exponentWord = (n.exponent, []) := by
    have hmarked := marked_append h.exponent_digits (show [].head? ≠ some 'e' by simp)
      (show StopsDigits [] from fun c hc => by cases hc)
    rwa [List.append_nil] at hmarked
  have hunsigned : (if n.negative = true then n.spelling.tail else n.spelling)
      = n.whole ++ (n.fractionWord ++ n.exponentWord) := by
    unfold spelling word
    cases n.negative with
    | true => simp
    | false => simp
  unfold ofWord?
  simp only [h.head?_spelling, hunsigned, htake, hdrop, hfraction, hexponent]
  simp [hne]

theorem Positional.digital {n : Numeral} (h : n.Positional) : n.Digital := by
  refine ⟨h.whole_digits, h.fraction_digits, ?_⟩
  rw [h.exponent_none]
  exact List.forall_mem_nil _

/-- The word of a numeral without exponent is taken apart as that numeral. -/
theorem Positional.ofWord?_word {n : Numeral} (h : n.Positional) : ofWord? n.word = some n := by
  have hne : n.significand ≠ [] := by
    intro hnil
    exact h.whole_ne (List.append_eq_nil_iff.mp hnil).1
  have hword := h.digital.ofWord?_spelling hne
  rwa [spelling, exponentWord, h.exponent_none, Option.elim_none, List.append_nil] at hword

/-- The characters in front of the exponent, the sign apart. -/
theorem Digital.mem_unsigned {n : Numeral} (h : n.Digital) {c : Char}
    (hc : c ∈ n.whole ++ n.fractionWord) : c = '.' ∨ c.isDigit = true := by
  rcases List.mem_append.mp hc with hc | hc
  · exact Or.inr (h.whole_digits c hc)
  · unfold fractionWord at hc
    cases hfraction : n.fraction with
    | none =>
      rw [hfraction] at hc
      cases hc
    | some digits =>
      have hdigits := h.fraction_digits
      rw [hfraction] at hc hdigits
      rcases List.mem_cons.mp hc with hdot | hc
      · exact Or.inl hdot
      · exact Or.inr (hdigits c hc)

/-- The characters in front of the exponent. -/
theorem Digital.mem_word {n : Numeral} (h : n.Digital) {c : Char} (hc : c ∈ n.word) :
    c = '-' ∨ c = '.' ∨ c.isDigit = true := by
  unfold word at hc
  split at hc
  · rcases List.mem_cons.mp hc with hminus | hc
    · exact Or.inl hminus
    · exact Or.inr (h.mem_unsigned hc)
  · exact Or.inr (h.mem_unsigned hc)

theorem Positional.word_ne {n : Numeral} (h : n.Positional) : n.word ≠ [] := by
  unfold word
  split
  · exact List.cons_ne_nil _ _
  · simp [h.whole_ne]

/-- The number that a run of digits writes, as the library has it. -/
theorem valueOf_eq (digits : List Char) : valueOf digits = Nat.ofDigitChars 10 digits 0 := rfl

/-- The value of a numeral without exponent. -/
theorem Positional.decimal_eq {n : Numeral} (h : n.Positional) :
    n.decimal = ⟨valueOf n.significand, -((n.fraction.getD []).length : Int)⟩ := by
  simp [decimal, h.exponent_none, valueOf]

end Numeral

/-! ## Positional notation -/

namespace Decimal

open Number Numeral

theorem digitChars_isDigit (d : Decimal) : ∀ c ∈ d.digitChars, c.isDigit = true := by
  intro c hc
  exact Nat.isDigit_of_mem_toDigits (by decide) (by decide) hc

theorem digitChars_ne_nil (d : Decimal) : d.digitChars ≠ [] := Nat.toDigits_ne_nil

theorem valueOf_digitChars (d : Decimal) : valueOf d.digitChars = d.digits :=
  Nat.ofDigitChars_ten_toDigits

theorem isDigit_zeros (n : Nat) : ∀ c ∈ List.replicate n '0', c.isDigit = true := by
  intro c hc
  rw [List.eq_of_mem_replicate hc]
  decide

/-- Zeros behind the digits are a factor. -/
theorem toNumber_scaled (negative : Bool) {m e : Nat} (he : e ≤ 308) :
    toNumber negative ⟨Nat.pow 10 e * m, 0⟩ = toNumber negative ⟨m, e⟩ := by
  by_cases hm : m = 0
  · rw [hm, Nat.mul_zero, toNumber, toNumber, if_pos rfl, if_pos rfl]
  · have hpow : Nat.pow 10 e ≠ 0 := Nat.ne_of_gt (Nat.pow_pos (by decide))
    have hwhole := toNumber_of_whole negative (Nat.mul_ne_zero hpow hm) (Nat.zero_le 308)
    have hshift : Nat.pow 10 e * m * Nat.pow 10 0 = m * Nat.pow 10 e := by
      show Nat.pow 10 e * m * 1 = m * Nat.pow 10 e
      ring
    rw [hshift] at hwhole
    exact hwhole.trans (toNumber_of_whole negative hm he).symm

/-- The numeral that positional notation writes. -/
theorem positional_numeral (negative : Bool) (d : Decimal) (hexponent : d.exponent ≤ 308) :
    ∃ n : Numeral, n.Positional ∧ n.negative = negative
      ∧ (d.positional "").toList = n.whole ++ n.fractionWord
      ∧ n.value = d.toNumber negative := by
  have hdigits := d.digitChars_isDigit
  have hvalue := d.valueOf_digitChars
  unfold positional
  dsimp only
  by_cases hwhole : 0 ≤ d.exponent
  · -- a whole number, with zeros behind its digits
    obtain ⟨e, he⟩ : ∃ e : Nat, d.exponent = e := ⟨d.exponent.toNat, by omega⟩
    have hn : Positional
        ⟨negative, d.digitChars ++ List.replicate e '0', none, none⟩ := by
      refine ⟨by simp [d.digitChars_ne_nil], ?_, by simp, rfl⟩
      intro c hc
      rcases List.mem_append.mp hc with hc | hc
      · exact hdigits c hc
      · exact isDigit_zeros e c hc
    refine ⟨_, hn, rfl, ?_, ?_⟩
    · rw [if_pos hwhole, he]
      simp [zeros, fractionWord]
    · rw [value, hn.decimal_eq]
      have hsum : valueOf (d.digitChars ++ List.replicate e '0') = Nat.pow 10 e * d.digits := by
        rw [valueOf_eq, Nat.ofDigitChars_append, Nat.ofDigitChars_replicate_zero, ← valueOf_eq, hvalue]
        rfl
      simp only [significand, Option.getD_none, List.append_nil, hsum, List.length_nil]
      have hd : d = ⟨d.digits, e⟩ := by rw [← he]
      rw [hd]
      exact toNumber_scaled negative (by omega)
  · obtain ⟨places, hplaces⟩ : ∃ places : Nat, d.exponent = -(places : Int) :=
      ⟨(-d.exponent).toNat, by omega⟩
    have hplacesNat : (-d.exponent).toNat = places := by omega
    have hd : (⟨d.digits, -(places : Int)⟩ : Decimal) = d := by rw [← hplaces]
    rw [if_neg hwhole, hplacesNat]
    by_cases hlong : places < d.digitChars.length
    · -- the point falls among the digits
      have hn : Positional ⟨negative, d.digitChars.take (d.digitChars.length - places),
          some (d.digitChars.drop (d.digitChars.length - places)), none⟩ := by
        refine ⟨?_, ?_, ?_, rfl⟩
        · simp [d.digitChars_ne_nil]
          omega
        · intro c hc
          exact hdigits c (List.mem_of_mem_take hc)
        · intro c hc
          exact hdigits c (List.mem_of_mem_drop hc)
      refine ⟨_, hn, rfl, ?_, ?_⟩
      · rw [if_pos hlong]
        simp [fractionWord]
      · rw [value, hn.decimal_eq]
        simp only [significand, Option.getD_some, List.take_append_drop, hvalue, List.length_drop]
        rw [show d.digitChars.length - (d.digitChars.length - places) = places by omega, hd]
    · -- all digits stand behind the point
      have hn : Positional ⟨negative, ['0'],
          some (List.replicate (places - d.digitChars.length) '0' ++ d.digitChars), none⟩ := by
        refine ⟨by simp, by simp, ?_, rfl⟩
        intro c hc
        rcases List.mem_append.mp hc with hc | hc
        · exact isDigit_zeros _ c hc
        · exact hdigits c hc
      refine ⟨_, hn, rfl, ?_, ?_⟩
      · rw [if_neg hlong]
        simp [fractionWord, zeros]
      · rw [value, hn.decimal_eq]
        have hlead : valueOf ('0' :: (List.replicate (places - d.digitChars.length) '0' ++ d.digitChars))
            = d.digits := by
          rw [← List.cons_append, ← List.replicate_succ, valueOf_eq, Nat.ofDigitChars_append,
            Nat.ofDigitChars_replicate_zero, Nat.mul_zero, ← valueOf_eq, hvalue]
        simp only [significand, Option.getD_some, List.cons_append, List.nil_append, hlead,
          List.length_append, List.length_replicate]
        rw [show places - d.digitChars.length + d.digitChars.length = places by omega, hd]

end Decimal

namespace Number

open Numeral

theorem toList_signed (negative : Bool) (s : String) :
    (signText negative ++ s).toList = if negative then '-' :: s.toList else s.toList := by
  cases negative with
  | true => simp [signText]
  | false => simp [signText]

/-- The numeral of a whole number that is written out. -/
theorem whole_numeral (negative : Bool) {rank : Fin infinityRank} {n : Nat} (hrank : 0 < rank.val)
    (h : (finite negative rank).wholeMagnitude? = some n) :
    (⟨negative, Nat.toDigits 10 n, none, none⟩ : Numeral).Positional
      ∧ (⟨negative, Nat.toDigits 10 n, none, none⟩ : Numeral).value = finite negative rank := by
  have hdigits : ∀ c ∈ Nat.toDigits 10 n, c.isDigit = true :=
    fun c hc => Nat.isDigit_of_mem_toDigits (by decide) (by decide) hc
  have hn : Positional ⟨negative, Nat.toDigits 10 n, none, none⟩ :=
    ⟨Nat.toDigits_ne_nil, hdigits, by simp, rfl⟩
  refine ⟨hn, ?_⟩
  -- the magnitude is `n` exactly
  have hunits : n * unitsPerOne = units rank := by
    simp only [wholeMagnitude?, Option.ite_none_right_eq_some, Option.some.injEq] at h
    obtain ⟨hmod, rfl⟩ := h
    exact Nat.div_mul_cancel (Nat.dvd_of_mod_eq_zero hmod)
  have hpos : 0 < units rank := Nat.zero_lt_of_lt (units_strictMono hrank)
  have hne : n ≠ 0 := by
    rintro rfl
    omega
  have hvalue : valueOf (Nat.toDigits 10 n) = n := Nat.ofDigitChars_ten_toDigits
  rw [value, hn.decimal_eq]
  simp only [significand, Option.getD_none, List.append_nil, hvalue, List.length_nil]
  show Decimal.toNumber negative ⟨n, (0 : Nat)⟩ = _
  rw [Decimal.toNumber_of_whole negative hne (by omega)]
  have hratio : n * Nat.pow 10 0 * unitsPerOne = units rank := by
    show n * 1 * unitsPerOne = units rank
    rw [Nat.mul_one, hunits]
  rw [hratio]
  exact ofRatio_eq negative Nat.one_pos (between_units rank)

/-- **The spelling of a finite number other than zero is a numeral whose value is the number.** -/
theorem text_numeral (negative : Bool) {rank : Fin infinityRank} (hrank : 0 < rank.val) :
    ∃ n : Numeral, n.Positional ∧ n.negative = negative
      ∧ (finite negative rank).text.toList = n.word ∧ n.value = finite negative rank := by
  have hshortest := Decimal.shortest_spells hrank
  obtain ⟨n, hn, hsign, hchars, hvalue⟩ :=
    Decimal.positional_numeral negative _ (hshortest.exponent_le hrank rank.isLt)
  rw [hshortest.toNumber_eq hrank] at hvalue
  have hfewest : (signText negative ++ (Decimal.shortest rank).positional "").toList = n.word := by
    rw [toList_signed, hchars, word, hsign]
  have hne : ¬ rank.val = 0 := by omega
  simp only [text, if_neg hne]
  cases hwhole : (finite negative rank).wholeMagnitude? with
  | none => exact ⟨n, hn, hsign, hfewest, hvalue⟩
  | some w =>
    dsimp only
    split
    · obtain ⟨hw, hwvalue⟩ := whole_numeral negative hrank hwhole
      refine ⟨_, hw, rfl, ?_, hwvalue⟩
      rw [toList_signed, Nat.toString_eq_ofList_toDigits, String.toList_ofList]
      simp [word, fractionWord]
    · exact ⟨n, hn, hsign, hfewest, hvalue⟩

/-- The characters that spellings consist of. -/
def isSpelling (c : Char) : Bool := decide (c = '-') || decide (c = '.') || c.isAlphanum

/-- A spelling is not empty, and it has no other characters. -/
theorem text_chars (x : Number) :
    x.text.toList ≠ [] ∧ ∀ c ∈ x.text.toList, isSpelling c = true := by
  cases x with
  | nan => exact ⟨by decide, List.all_eq_true.mp (by decide)⟩
  | infinite negative => cases negative <;> exact ⟨by decide, List.all_eq_true.mp (by decide)⟩
  | finite negative rank =>
    by_cases hzero : rank.val = 0
    · simp only [text, if_pos hzero]
      exact ⟨by decide, List.all_eq_true.mp (by decide)⟩
    · obtain ⟨n, hn, _, hword, _⟩ := text_numeral negative (Nat.pos_of_ne_zero hzero)
      rw [hword]
      constructor
      · exact hn.word_ne
      · intro c hc
        rcases hn.digital.mem_word hc with rfl | rfl | hdigit
        · rfl
        · rfl
        · simp [isSpelling, Char.isAlphanum, hdigit]

/-- The spelling of a negative number is a minus and that of its magnitude. -/
theorem text_negative {rank : Fin infinityRank} (hrank : 0 < rank.val) :
    (finite true rank).text.toList = '-' :: (finite false rank).text.toList := by
  have hne : ¬ rank.val = 0 := by omega
  have hsigned (s : String) :
      (signText true ++ s).toList = '-' :: (signText false ++ s).toList := by
    rw [toList_signed, toList_signed, if_pos rfl, if_neg Bool.false_ne_true]
  simp only [text, if_neg hne, wholeMagnitude?]
  split
  · split
    · exact hsigned _
    · exact hsigned _
  · exact hsigned _

/-- **Different numbers are spelt differently**, zero and the infinite ones apart. -/
theorem text_injective {negative negative' : Bool} {rank rank' : Fin infinityRank}
    (hrank : 0 < rank.val) (hrank' : 0 < rank'.val)
    (h : (finite negative rank).text.toList = (finite negative' rank').text.toList) :
    finite negative rank = finite negative' rank' := by
  obtain ⟨n, hn, _, hword, hvalue⟩ := text_numeral negative hrank
  obtain ⟨n', hn', _, hword', hvalue'⟩ := text_numeral negative' hrank'
  have hsame : some n = some n' := by
    rw [← hn.ofWord?_word, ← hn'.ofWord?_word, ← hword, ← hword', h]
  rw [← hvalue, ← hvalue', Option.some.inj hsame]

end Number

end FormScript
