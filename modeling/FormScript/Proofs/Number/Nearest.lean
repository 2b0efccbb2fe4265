import FormScript.Number.Rounding
import Mathlib.Order.Monotone.Basic
import Mathlib.Tactic.Ring

/-!
# The nearest magnitude

Inside one stretch of equal spacing the magnitudes are the multiples of that spacing (`units_stretch`),
so rounding a ratio to the nearest magnitude is rounding a quotient to the nearest whole number. The
main statement is the converse view that spellings of numbers need: a ratio that lies between the
midpoints to the two neighbours of a magnitude is rounded to that magnitude, and so is a midpoint
itself if the rank is even (`nearestRank_eq`).
-/

namespace FormScript.Number

/-! ## Magnitudes -/

theorem binade_pos : 0 < binade := by decide

theorem binade_even : binade % 2 = 0 := by decide

/-- `k` counts multiples of the spacing after `shift` doublings, without leaving that spacing. -/
def InStretch (shift k : Nat) : Prop := (shift = 0 ∨ binade ≤ k) ∧ k ≤ 2 * binade

/-- With `shift` doublings of the spacing, magnitudes are multiples of it. -/
theorem units_stretch {shift k : Nat} (h : InStretch shift k) :
    units (shift * binade + k) = k * 2 ^ shift := by
  obtain ⟨hlow, hhigh⟩ := h
  have hpos := binade_pos
  by_cases hsmall : k < binade
  · -- only without a doubling can the first binade be met
    have hzero : shift = 0 := by omega
    subst hzero
    simp [units, hsmall]
  · have hge : ¬ shift * binade + k < binade := by omega
    have hpow : ∀ n, Nat.pow 2 n = 2 ^ n := fun _ => rfl
    unfold units
    rw [if_neg hge, hpow]
    by_cases hlast : k = 2 * binade
    · have hrank : shift * binade + k = binade * (shift + 2) := by rw [hlast]; ring
      rw [hrank, Nat.mul_mod_right, Nat.mul_div_cancel_left _ hpos, hlast]
      rw [show shift + 2 - 1 = shift + 1 by omega, pow_succ]
      ring
    · obtain ⟨r, rfl⟩ : ∃ r, k = binade + r := ⟨k - binade, by omega⟩
      have hr : r < binade := by omega
      have hrank : shift * binade + (binade + r) = r + binade * (shift + 1) := by ring
      rw [hrank, Nat.add_mul_mod_self_left, Nat.add_mul_div_left _ _ hpos, Nat.mod_eq_of_lt hr,
        Nat.div_eq_of_lt hr, Nat.zero_add, Nat.add_sub_cancel]

/-- Every rank lies in some stretch, below its end. -/
theorem exists_stretch (rank : Nat) :
    ∃ shift k, rank = shift * binade + k ∧ (shift = 0 ∨ binade ≤ k) ∧ k < 2 * binade := by
  have hpos := binade_pos
  by_cases hsmall : rank < 2 * binade
  · exact ⟨0, rank, by simp, Or.inl rfl, hsmall⟩
  · have hquot : 2 ≤ rank / binade := (Nat.le_div_iff_mul_le hpos).mpr (by omega)
    have hmod := Nat.mod_lt rank hpos
    refine ⟨rank / binade - 1, binade + rank % binade, ?_, Or.inr (by omega), by omega⟩
    obtain ⟨q, hq⟩ : ∃ q, rank / binade = q + 1 := ⟨rank / binade - 1, by omega⟩
    have hdiv := Nat.div_add_mod rank binade
    rw [hq] at hdiv ⊢
    rw [Nat.add_sub_cancel]
    calc rank = binade * (q + 1) + rank % binade := hdiv.symm
      _ = q * binade + (binade + rank % binade) := by ring

theorem units_lt_succ (rank : Nat) : units rank < units (rank + 1) := by
  obtain ⟨shift, k, rfl, hlow, hhigh⟩ := exists_stretch rank
  have hnext : InStretch shift (k + 1) := ⟨by omega, by omega⟩
  rw [units_stretch ⟨hlow, by omega⟩, Nat.add_assoc, units_stretch hnext]
  exact Nat.mul_lt_mul_of_pos_right (Nat.lt_succ_self k) (Nat.two_pow_pos shift)

theorem units_strictMono : StrictMono units := strictMono_nat_of_lt_succ units_lt_succ

/-! ## Rounding a quotient -/

/-- The rounded quotient is at most a half away, and only an even one is exactly a half away. -/
theorem roundDiv_spec (num : Nat) {den : Nat} (hden : 0 < den) :
    2 * (roundDiv num den * den) ≤ 2 * num + den
      ∧ 2 * num ≤ 2 * (roundDiv num den * den) + den
      ∧ (roundDiv num den % 2 = 1 → 2 * (roundDiv num den * den) < 2 * num + den
          ∧ 2 * num < 2 * (roundDiv num den * den) + den) := by
  have hdiv := Nat.div_add_mod num den
  have hmod := Nat.mod_lt num hden
  unfold roundDiv
  generalize num / den = q at hdiv ⊢
  generalize num % den = r at hdiv hmod ⊢
  rw [Nat.mul_comm] at hdiv
  dsimp only
  split
  · refine ⟨?_, ?_, ?_⟩ <;> omega
  · split
    · rw [Nat.add_mul]
      refine ⟨?_, ?_, ?_⟩ <;> omega
    · -- a tie: the quotient itself if it is even, the next one otherwise
      rcases Nat.mod_two_eq_zero_or_one q with heven | hodd
      · rw [heven, Nat.add_zero]
        refine ⟨?_, ?_, ?_⟩ <;> omega
      · rw [hodd, Nat.add_mul]
        refine ⟨?_, ?_, ?_⟩ <;> omega

/-! ## Rounding to a magnitude -/

/-- The number of doublings is the one whose stretch holds the ratio. -/
theorem ratio_in_stretch (num : Nat) {den : Nat} (hden : 0 < den) :
    (Nat.log2 (num / den) - 52 = 0
        ∨ binade * (den * 2 ^ (Nat.log2 (num / den) - 52)) ≤ num)
      ∧ num < 2 * binade * (den * 2 ^ (Nat.log2 (num / den) - 52)) := by
  have hbinade : binade = 2 ^ 52 := rfl
  generalize hq : num / den = q
  have hnum : num < (q + 1) * den := by
    rw [← hq, Nat.mul_comm]
    exact Nat.lt_mul_div_succ num hden
  have hupper : q < 2 ^ (Nat.log2 q + 1) := Nat.lt_log2_self
  by_cases hsmall : Nat.log2 q ≤ 52
  · have hzero : Nat.log2 q - 52 = 0 := by omega
    rw [hzero]
    refine ⟨Or.inl rfl, ?_⟩
    have hq53 : q + 1 ≤ 2 ^ 53 :=
      Nat.lt_of_lt_of_le hupper (Nat.pow_le_pow_right (by decide) (by omega))
    calc num < (q + 1) * den := hnum
      _ ≤ 2 ^ 53 * den := Nat.mul_le_mul_right den hq53
      _ = 2 * binade * (den * 2 ^ 0) := by rw [hbinade]; ring
  · obtain ⟨s, hs⟩ : ∃ s, Nat.log2 q = 52 + s := ⟨Nat.log2 q - 52, by omega⟩
    have hshift : Nat.log2 q - 52 = s := by omega
    have hne : q ≠ 0 := by
      rintro rfl
      simp at hs
      omega
    have hlower : 2 ^ Nat.log2 q ≤ q := Nat.log2_self_le hne
    rw [hshift]
    rw [hs] at hlower hupper
    constructor
    · right
      calc binade * (den * 2 ^ s) = 2 ^ (52 + s) * den := by rw [hbinade, pow_add]; ring
        _ ≤ q * den := Nat.mul_le_mul_right den hlower
        _ ≤ num := by rw [← hq]; exact Nat.div_mul_le_self num den
    · calc num < (q + 1) * den := hnum
        _ ≤ 2 ^ (52 + s + 1) * den := Nat.mul_le_mul_right den hupper
        _ = 2 * binade * (den * 2 ^ s) := by rw [hbinade, pow_succ, pow_add]; ring

/-- The multiple that a ratio is rounded to stays in the stretch of the ratio. -/
theorem roundDiv_in_stretch {shift num den : Nat} (hden : 0 < den)
    (hlow : shift = 0 ∨ binade * den ≤ num) (hhigh : num < 2 * binade * den) :
    InStretch shift (roundDiv num den) := by
  obtain ⟨habove, hbelow, hodd⟩ := roundDiv_spec num hden
  generalize roundDiv num den = k at habove hbelow hodd
  constructor
  · rcases hlow with hzero | hlow
    · exact Or.inl hzero
    · right
      by_contra hlt
      have hk : k + 1 ≤ binade := by omega
      have hmul := Nat.mul_le_mul_right den hk
      rw [Nat.add_mul] at hmul
      omega
  · by_contra hgt
    have hk : 2 * binade + 1 ≤ k := by omega
    have hmul := Nat.mul_le_mul_right den hk
    rw [Nat.add_mul] at hmul
    omega

/-- `num / den` units lie between the midpoints to the neighbours of the magnitude of `rank`, and on a
    midpoint only if the rank is even. -/
structure Between (rank num den : Nat) : Prop where
  above : (units (rank - 1) + units rank) * den ≤ 2 * num
  below : 2 * num ≤ (units rank + units (rank + 1)) * den
  strict : rank % 2 = 1 →
    (units (rank - 1) + units rank) * den < 2 * num ∧ 2 * num < (units rank + units (rank + 1)) * den

/-- No ratio lies between the midpoints around a rank that is less than the one it is rounded to. -/
theorem not_between_of_lt {shift k rank num den : Nat} (hden : 0 < den) (hk : InStretch shift k)
    (hlow : shift = 0 ∨ binade * (den * 2 ^ shift) ≤ num)
    (habove : 2 * (k * (den * 2 ^ shift)) ≤ 2 * num + den * 2 ^ shift)
    (hodd : k % 2 = 1 → 2 * (k * (den * 2 ^ shift)) < 2 * num + den * 2 ^ shift)
    (hlt : rank < shift * binade + k) : ¬ Between rank num den := by
  intro h
  have hmono := units_strictMono.monotone
  have hunits := units_stretch hk
  generalize hD : den * 2 ^ shift = D at hlow habove hodd
  -- the midpoint above `rank` is at most the one below the rounded rank
  obtain ⟨prev, hprev⟩ : ∃ prev, shift * binade + k = prev + 1 := ⟨shift * binade + k - 1, by omega⟩
  have hmid : units rank + units (rank + 1) ≤ units prev + units (prev + 1) :=
    Nat.add_le_add (hmono (by omega)) (hmono (by omega))
  have hnum := h.below.trans (Nat.mul_le_mul_right den hmid)
  rw [hprev] at hunits
  by_cases hfirst : shift = 0 ∨ binade + 1 ≤ k
  · obtain ⟨j, rfl⟩ : ∃ j, k = j + 1 := by
      refine ⟨k - 1, ?_⟩
      have := binade_pos
      rcases hfirst with hzero | hge
      · subst hzero
        omega
      · omega
    have hj : InStretch shift j := ⟨by omega, by have := hk.2; omega⟩
    have hunitsPrev : units prev = j * 2 ^ shift := by
      rw [← units_stretch hj]
      congr 1
      omega
    have hsum : (units prev + units (prev + 1)) * den = 2 * (j * D) + D := by
      rw [hunitsPrev, hunits, ← hD]
      ring
    rw [hsum] at hnum
    have hexpand : (j + 1) * D = j * D + D := by ring
    rw [hexpand] at habove hodd
    -- a tie, so the rounded multiple is even and the rank below it is odd
    have hjeven : (j + 1) % 2 ≠ 1 := fun hj1 => by
      have := hodd hj1
      omega
    have hrank : rank = prev := by
      by_contra hne
      have hless : units rank + units (rank + 1) < units prev + units (prev + 1) :=
        Nat.add_lt_add (units_strictMono (by omega)) (units_strictMono (by omega))
      have := Nat.mul_lt_mul_of_pos_right hless hden
      have := h.below
      omega
    have hparity : rank % 2 = 1 := by
      have hshiftEven : (shift * binade) % 2 = 0 := by
        rw [Nat.mul_mod, binade_even, Nat.mul_zero, Nat.zero_mod]
      omega
    have hstrict := (h.strict hparity).2
    rw [hrank, hsum] at hstrict
    omega
  · -- the rounded multiple is the first of its stretch, where the ratio begins
    have hkeq : k = binade := by
      have := hk.1
      omega
    subst hkeq
    have hless : units prev < units (prev + 1) := units_lt_succ prev
    have hsum : (units prev + units (prev + 1)) * den < 2 * (binade * D) := by
      calc (units prev + units (prev + 1)) * den
          < (2 * units (prev + 1)) * den := Nat.mul_lt_mul_of_pos_right (by omega) hden
        _ = 2 * (binade * D) := by rw [hunits, ← hD]; ring
    have hbegin : binade * D ≤ num := by omega
    omega

/-- No ratio lies between the midpoints around a rank that is greater than the one it is rounded to. -/
theorem not_between_of_gt {shift k rank num den : Nat} (hden : 0 < den) (hk : InStretch shift k)
    (hhigh : num < 2 * binade * (den * 2 ^ shift))
    (hbelow : 2 * num ≤ 2 * (k * (den * 2 ^ shift)) + den * 2 ^ shift)
    (hodd : k % 2 = 1 → 2 * num < 2 * (k * (den * 2 ^ shift)) + den * 2 ^ shift)
    (hgt : shift * binade + k < rank) : ¬ Between rank num den := by
  intro h
  have hmono := units_strictMono.monotone
  have hunits := units_stretch hk
  generalize hD : den * 2 ^ shift = D at hhigh hbelow hodd
  generalize hR : shift * binade + k = R at hgt hunits
  have hmid : units R + units (R + 1) ≤ units (rank - 1) + units rank :=
    Nat.add_le_add (hmono (by omega)) (hmono (by omega))
  have hnum := (Nat.mul_le_mul_right den hmid).trans h.above
  by_cases hlast : k < 2 * binade
  · have hnext : InStretch shift (k + 1) := ⟨by have := hk.1; omega, by omega⟩
    have hunitsNext : units (R + 1) = (k + 1) * 2 ^ shift := by
      rw [← units_stretch hnext, ← hR, Nat.add_assoc]
    have hsum : (units R + units (R + 1)) * den = 2 * (k * D) + D := by
      rw [hunitsNext, hunits, ← hD]
      ring
    rw [hsum] at hnum
    have hkeven : k % 2 ≠ 1 := fun hk1 => by
      have := hodd hk1
      omega
    have hrank : rank = R + 1 := by
      by_contra hne
      have hless : units R + units (R + 1) < units (rank - 1) + units rank :=
        Nat.add_lt_add (units_strictMono (by omega)) (units_strictMono (by omega))
      have := Nat.mul_lt_mul_of_pos_right hless hden
      have := h.above
      omega
    have hparity : rank % 2 = 1 := by
      have hshiftEven : (shift * binade) % 2 = 0 := by
        rw [Nat.mul_mod, binade_even, Nat.mul_zero, Nat.zero_mod]
      omega
    have hstrict := (h.strict hparity).1
    rw [hrank, Nat.add_sub_cancel, hsum] at hstrict
    omega
  · -- the rounded multiple is the end of its stretch, which the ratio does not reach
    have hkeq : k = 2 * binade := by
      have := hk.2
      omega
    have hless : units R < units (R + 1) := units_lt_succ R
    have hsum : 2 * (2 * binade * D) ≤ (units R + units (R + 1)) * den := by
      calc 2 * (2 * binade * D) = (2 * units R) * den := by rw [hunits, hkeq, ← hD]; ring
        _ ≤ (units R + units (R + 1)) * den := Nat.mul_le_mul_right den (by omega)
    omega

/-- **A ratio between the midpoints around a magnitude is rounded to that magnitude.** -/
theorem nearestRank_eq {rank num den : Nat} (hden : 0 < den) (h : Between rank num den) :
    nearestRank num den = rank := by
  obtain ⟨hlow, hhigh⟩ := ratio_in_stretch num hden
  unfold nearestRank
  dsimp only
  rw [show ∀ n, Nat.pow 2 n = 2 ^ n from fun _ => rfl]
  generalize Nat.log2 (num / den) - 52 = shift at hlow hhigh
  have hD : 0 < den * 2 ^ shift := Nat.mul_pos hden (Nat.two_pow_pos shift)
  have hk := roundDiv_in_stretch hD hlow hhigh
  obtain ⟨habove, hbelow, hodd⟩ := roundDiv_spec num hD
  generalize roundDiv num (den * 2 ^ shift) = k at hk habove hbelow hodd
  rcases Nat.lt_trichotomy rank (shift * binade + k) with hlt | heq | hgt
  · exact absurd h (not_between_of_lt hden hk hlow habove (fun hk1 => (hodd hk1).1) hlt)
  · exact heq.symm
  · exact absurd h (not_between_of_gt hden hk hhigh hbelow (fun hk1 => (hodd hk1).2) hgt)

/-- A ratio between the midpoints around a finite magnitude gives the number of that magnitude. -/
theorem ofRatio_eq (negative : Bool) {rank : Fin infinityRank} {num den : Nat} (hden : 0 < den)
    (h : Between rank num den) : ofRatio negative num den = .finite negative rank := by
  have hrank := nearestRank_eq hden h
  unfold ofRatio
  rw [dif_pos (by rw [hrank]; exact rank.isLt)]
  congr 1
  exact Fin.ext hrank

/-- A magnitude itself lies between its midpoints. -/
theorem between_units (rank : Nat) : Between rank (units rank) 1 := by
  have hnext := units_lt_succ rank
  have hprev : units (rank - 1) ≤ units rank := units_strictMono.monotone (Nat.sub_le rank 1)
  refine ⟨by omega, by omega, fun hodd => ?_⟩
  have hless : units (rank - 1) < units rank := units_strictMono (by omega)
  omega

end FormScript.Number
