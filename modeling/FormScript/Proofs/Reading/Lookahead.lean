import FormScript.Proofs.Reading.Gap
import FormScript.Proofs.Reading.Step

/-!
# Lookahead

An expression that has been read depends on its own characters and on one character behind it. That
character matters only because it ends a word, a run of flags or a division sign, so the rest of the
text may be replaced by any text that begins with the same character, or by one that begins with a
character after which a slash stands alone (`MayFollow`). The three statements of this kind are
`readAtom_swap` for an atom, `readStep_swap` for a step and `readWithin_swap` for a whole run.
-/

namespace FormScript

/-- `w'` may stand behind an expression in the place of `w`. -/
def MayFollow (w w' : List Char) : Prop := w'.head? = w.head? ∨ standsAlone w' = true

namespace MayFollow

/-- Behind something that stays, everything may be replaced that may be replaced behind nothing. -/
theorem append {w w' : List Char} (h : MayFollow w w') (z : List Char) :
    MayFollow (z ++ w) (z ++ w') := by
  cases z with
  | nil => exact h
  | cons c z => exact Or.inl rfl

/-- A character class that is left at `w` and at every lone slash is left at `w'`. -/
theorem stops {keep : Char → Bool} {w w' : List Char} (h : MayFollow w w')
    (hkeep : ∀ c, endsSlash c = true → keep c = false)
    (hw : ∀ c, w.head? = some c → keep c = false) : ∀ c, w'.head? = some c → keep c = false := by
  intro c hc
  rcases h with hsame | halone
  · exact hw c (hsame ▸ hc)
  · cases w' with
    | nil => simp at hc
    | cons d w' =>
      simp only [List.head?_cons, Option.some.injEq] at hc
      subst hc
      exact hkeep d halone

/-- A slash that stands alone in front of `w` does so in front of `w'`. -/
theorem standsAlone {w w' : List Char} (h : MayFollow w w') (hw : FormScript.standsAlone w = true) :
    FormScript.standsAlone w' = true := by
  rcases h with hsame | halone
  · cases w' with
    | nil => rfl
    | cons d w' =>
      cases w with
      | nil => simp at hsame
      | cons e w =>
        simp only [List.head?_cons, Option.some.injEq] at hsame
        subst hsame
        exact hw
  · exact halone

/-- Where some text is left, more text may follow. -/
theorem of_ne_nil {w : List Char} (h : w ≠ []) (t : List Char) : MayFollow w (w ++ t) := by
  obtain ⟨c, w, rfl⟩ := List.exists_cons_of_ne_nil h
  exact Or.inl rfl

/-- Text that ends a lone slash may follow anywhere. -/
theorem of_standsAlone {t : List Char} (h : FormScript.standsAlone t = true) (w : List Char) :
    MayFollow w (w ++ t) := by
  cases w with
  | nil => exact Or.inr h
  | cons c w => exact Or.inl rfl

end MayFollow

/-! ## Character classes -/

/-- Every character that ends a lone slash ends a word. -/
theorem endsWord_of_endsSlash {c : Char} (h : endsSlash c = true) : endsWord c = true := by
  simp only [endsSlash, Bool.or_eq_true, decide_eq_true_eq] at h
  rcases h with (hblank | hsemi) | hclose
  · simp [endsWord, hblank]
  · simp [endsWord, hsemi]
  · simp [endsWord, hclose]

/-- No flag ends a lone slash. -/
theorem not_isRegexFlag_of_endsSlash {c : Char} (h : endsSlash c = true) : isRegexFlag c = false := by
  cases hflag : isRegexFlag c with
  | false => rfl
  | true =>
    have hmem : c ∈ ['d', 'g', 'i', 'm', 's', 'u', 'y'] := by
      simpa [isRegexFlag] using hflag
    simp only [List.mem_cons, List.not_mem_nil, or_false] at hmem
    rcases hmem with rfl | rfl | rfl | rfl | rfl | rfl | rfl <;> exact absurd h (by decide)

namespace Cursor

/-! ## Runs of characters -/

/-- The character behind a run of characters is not of its class. -/
theorem head_dropWhile {keep : Char → Bool} {cs : List Char} {c : Char}
    (h : (cs.dropWhile keep).head? = some c) : keep c = false := by
  have hnot := List.head?_dropWhile_not keep cs
  rw [h] at hnot
  exact hnot

/-- A run of characters ends at the same place in front of any text that does not go on with it. -/
theorem span_swap {keep : Char → Bool} {x w w' : List Char} {p : Position}
    (h : (span keep ⟨x ++ w, p⟩).2.rest = w) (hw : ∀ c, w'.head? = some c → keep c = false) :
    span keep ⟨x ++ w, p⟩ = (x, ⟨w, p.advance x⟩) ∧
      span keep ⟨x ++ w', p⟩ = (x, ⟨w', p.advance x⟩) := by
  have hdrop : (x ++ w).dropWhile keep = w := h
  have htake : (x ++ w).takeWhile keep = x := by
    have hsplit : (x ++ w).takeWhile keep ++ (x ++ w).dropWhile keep = x ++ w :=
      List.takeWhile_append_dropWhile
    rw [hdrop] at hsplit
    exact List.append_cancel_right hsplit
  have hall : ∀ a ∈ x, keep a = true := by
    have hkeep := List.all_takeWhile (p := keep) (l := x ++ w)
    rw [htake] at hkeep
    exact List.all_eq_true.mp hkeep
  have htail : w'.takeWhile keep = [] ∧ w'.dropWhile keep = w' := by
    cases w' with
    | nil => exact ⟨rfl, rfl⟩
    | cons c w' =>
      have hc : ¬ keep c = true := by rw [hw c rfl]; simp
      exact ⟨List.takeWhile_cons_of_neg hc, List.dropWhile_cons_of_neg hc⟩
  constructor
  · unfold span past
    rw [hdrop, htake]
  · unfold span past
    rw [List.takeWhile_append_of_pos hall, List.dropWhile_append_of_pos hall, htail.1, htail.2,
      List.append_nil]

end Cursor

/-! ## Delimited texts -/

theorem splitDelimited_delimiter {delimiter : Char} (hd : delimiter ≠ '\\') (w : List Char) :
    splitDelimited delimiter (delimiter :: w) = some ([], w) := by
  cases w with
  | nil => simp [splitDelimited]
  | cons d w => simp [splitDelimited, hd]

theorem splitDelimited_cons {delimiter c : Char} (hc : c ≠ '\\') (hne : c ≠ delimiter)
    {cs : List Char} (hcs : cs ≠ []) :
    splitDelimited delimiter (c :: cs) =
      (splitDelimited delimiter cs).map fun (body, rest) => (c :: body, rest) := by
  obtain ⟨d, cs, rfl⟩ := List.exists_cons_of_ne_nil hcs
  simp [splitDelimited, hc, hne]

/-- A delimited text ends at the same delimiter whatever follows it. -/
theorem splitDelimited_swap {delimiter : Char} (hd : delimiter ≠ '\\') {cs body rest : List Char}
    (h : splitDelimited delimiter cs = some (body, rest)) (w : List Char) :
    splitDelimited delimiter (body ++ delimiter :: w) = some (body, w) := by
  fun_induction splitDelimited delimiter cs generalizing body with
  | case1 => cases h
  | case2 =>
    cases h
    exact splitDelimited_delimiter hd w
  | case3 => cases h
  | case4 d cs ih =>
    obtain ⟨⟨b, r⟩, hb, he⟩ := Option.map_eq_some_iff.mp h
    obtain ⟨rfl, rfl⟩ := Prod.mk.inj he
    simp [splitDelimited, ih hb]
  | case5 =>
    cases h
    exact splitDelimited_delimiter hd w
  | case6 c d cs hc hne ih =>
    obtain ⟨⟨b, r⟩, hb, he⟩ := Option.map_eq_some_iff.mp h
    obtain ⟨rfl, rfl⟩ := Prod.mk.inj he
    rw [List.cons_append, splitDelimited_cons hc hne (by simp), ih hb]
    rfl

/-! ## Slashes -/

/-- Whether a slash in front of this text opens a regular expression. Two characters decide. -/
def opensRegex : List Char → Bool
  | [] => false
  | [c] => !endsSlash c && decide (c ≠ '=')
  | c :: d :: _ => !endsSlash c && (decide (c ≠ '=') || !endsSlash d)

/-- A text with a slash in it decides by itself. -/
theorem opensRegex_swap {x : List Char} (h : '/' ∈ x) (w w' : List Char) :
    opensRegex (x ++ w) = opensRegex (x ++ w') := by
  have hslash : ∀ v, opensRegex ('/' :: v) = true := by
    intro v
    cases v with
    | nil => decide
    | cons d v => simp [opensRegex, show endsSlash '/' = false from by decide]
  match x, h with
  | [c], h =>
    have hc : '/' = c := List.mem_singleton.mp h
    subst hc
    rw [List.singleton_append, List.singleton_append, hslash, hslash]
  | c :: d :: x, _ => rfl

namespace Cursor

theorem readSlash_of_standsAlone {c : Cursor} (h : standsAlone c.rest = true) :
    c.readSlash = (.ok (.symbol "/"), c) := by
  unfold readSlash
  rw [if_pos h]

theorem readSlash_of_equals {c : Cursor} {rest : List Char} (hrest : c.rest = '=' :: rest)
    (h : standsAlone rest = true) : c.readSlash = (.ok (.symbol "/="), c.next) := by
  have hne : ¬ standsAlone ('=' :: rest) = true := by
    show ¬ endsSlash '=' = true
    decide
  unfold readSlash
  simp only [hrest, if_neg hne, if_pos h]

theorem readSlash_of_opensRegex {c : Cursor} (h : opensRegex c.rest = true) :
    c.readSlash = c.readRegex := by
  unfold readSlash
  match hrest : c.rest with
  | [] => simp [hrest, opensRegex] at h
  | [d] =>
    simp only [hrest, opensRegex, Bool.and_eq_true, Bool.not_eq_true', decide_eq_true_eq] at h
    simp [standsAlone, h.1, h.2]
  | d :: d' :: rest =>
    simp only [hrest, opensRegex, Bool.and_eq_true, Bool.not_eq_true', Bool.or_eq_true,
      decide_eq_true_eq] at h
    obtain ⟨hd, heq | hd'⟩ := h
    · simp [standsAlone, hd, heq]
    · by_cases hdeq : d = '='
      · subst hdeq
        simp [standsAlone, hd, hd']
      · simp [standsAlone, hd, hdeq]

/-- What a slash begins is decided by the text behind it. -/
theorem slash_cases (cs : List Char) :
    standsAlone cs = true ∨ (∃ rest, cs = '=' :: rest ∧ standsAlone rest = true)
      ∨ opensRegex cs = true := by
  match cs with
  | [] => exact Or.inl rfl
  | [c] =>
    by_cases hc : endsSlash c = true
    · exact Or.inl hc
    · by_cases heq : c = '='
      · exact Or.inr (Or.inl ⟨[], by rw [heq], rfl⟩)
      · exact Or.inr (Or.inr (by simp [opensRegex, hc, heq]))
  | c :: d :: cs =>
    by_cases hc : endsSlash c = true
    · exact Or.inl hc
    · by_cases heq : c = '='
      · by_cases hd : endsSlash d = true
        · exact Or.inr (Or.inl ⟨d :: cs, by rw [heq], hd⟩)
        · exact Or.inr (Or.inr (by simp [opensRegex, hc, hd]))
      · exact Or.inr (Or.inr (by simp [opensRegex, hc, heq]))

end Cursor

/-! ## Atoms -/

namespace Cursor

theorem readString_swap {quote : Char} (hq : quote ≠ '\\') {x w : List Char} {p p' : Position}
    {e : Sexp} (h : readString quote ⟨x ++ w, p⟩ = (.ok e, ⟨w, p'⟩)) (w' : List Char) :
    readString quote ⟨x ++ w', p⟩ = (.ok e, ⟨w', p'⟩) := by
  unfold readString at h ⊢
  cases hsplit : splitDelimited quote (x ++ w) with
  | none => simp [hsplit] at h
  | some result =>
    obtain ⟨body, rest⟩ := result
    simp only [hsplit, past, Prod.mk.injEq, Except.ok.injEq, Cursor.mk.injEq] at h
    obtain ⟨rfl, rfl, rfl⟩ := h
    have hx : x = body ++ [quote] := List.append_cancel_right (splitDelimited_eq_append hsplit)
    have hswap : splitDelimited quote (x ++ w') = some (body, w') := by
      rw [hx, List.append_assoc]
      exact splitDelimited_swap hq hsplit w'
    simp [hswap, past]

/-- What a regular expression takes: its body, the closing slash and its flags. -/
theorem readRegex_swap {x w w' : List Char} {p p' : Position} {e : Sexp}
    (h : readRegex ⟨x ++ w, p⟩ = (.ok e, ⟨w, p'⟩)) (hw : MayFollow w w') :
    '/' ∈ x ∧ readRegex ⟨x ++ w', p⟩ = (.ok e, ⟨w', p'⟩) := by
  unfold readRegex at h ⊢
  cases hsplit : splitDelimited '/' (x ++ w) with
  | none => simp [hsplit] at h
  | some result =>
    obtain ⟨body, rest⟩ := result
    have hflags : (span isRegexFlag ⟨rest, p.advance (body ++ ['/'])⟩).2.rest = w := by
      simp only [hsplit, past] at h
      exact congrArg Cursor.rest (Prod.mk.inj h).2
    have hrest : rest.dropWhile isRegexFlag = w := hflags
    have hsplitRest : rest = rest.takeWhile isRegexFlag ++ w := by
      rw [← hrest]
      exact List.takeWhile_append_dropWhile.symm
    have hstop : ∀ c, w'.head? = some c → isRegexFlag c = false := by
      refine hw.stops (fun c => not_isRegexFlag_of_endsSlash) (fun c hc => ?_)
      rw [← hrest] at hc
      exact head_dropWhile hc
    generalize rest.takeWhile isRegexFlag = flags at hsplitRest
    subst hsplitRest
    have hx : x = body ++ ['/'] ++ flags := by
      have happend := splitDelimited_eq_append hsplit
      rw [← List.append_assoc] at happend
      exact List.append_cancel_right happend
    have hswap : splitDelimited '/' (x ++ w') = some (body, flags ++ w') := by
      rw [hx, List.append_assoc, List.append_assoc]
      exact splitDelimited_swap (by decide) hsplit (flags ++ w')
    obtain ⟨hspan, hspan'⟩ := span_swap hflags hstop
    simp only [hsplit, past, hspan, Prod.mk.injEq, Except.ok.injEq, Cursor.mk.injEq, true_and] at h
    obtain ⟨rfl, rfl⟩ := h
    refine ⟨by simp [hx], ?_⟩
    simp only [hswap, past, hspan']

theorem readSlash_swap {x w w' : List Char} {p p' : Position} {e : Sexp}
    (h : readSlash ⟨x ++ w, p⟩ = (.ok e, ⟨w, p'⟩)) (hw : MayFollow w w') :
    readSlash ⟨x ++ w', p⟩ = (.ok e, ⟨w', p'⟩) := by
  rcases slash_cases (x ++ w) with halone | ⟨rest, hrest, halone⟩ | hregex
  · -- the division sign takes nothing behind its slash
    rw [readSlash_of_standsAlone halone] at h
    simp only [Prod.mk.injEq, Except.ok.injEq, Cursor.mk.injEq] at h
    obtain ⟨rfl, hxw, rfl⟩ := h
    have hx : x = [] := List.append_left_eq_self.mp hxw
    subst hx
    exact readSlash_of_standsAlone (hw.standsAlone halone)
  · rw [readSlash_of_equals hrest halone] at h
    simp only [next, past, hrest, Prod.mk.injEq, Except.ok.injEq, Cursor.mk.injEq] at h
    obtain ⟨rfl, rfl, rfl⟩ := h
    have hx : x = ['='] := List.append_cancel_right (hrest.trans rfl)
    subst hx
    exact readSlash_of_equals rfl (hw.standsAlone halone)
  · -- the closing slash lies in `x`, so `x` alone decides that this is no division sign
    rw [readSlash_of_opensRegex hregex] at h
    obtain ⟨hmem, hswap⟩ := readRegex_swap h hw
    rw [opensRegex_swap hmem w w'] at hregex
    rw [readSlash_of_opensRegex hregex]
    exact hswap

theorem readWord_swap {first : Char} {x w w' : List Char} {p p' : Position} {e : Sexp}
    (h : readWord first ⟨x ++ w, p⟩ = (.ok e, ⟨w, p'⟩)) (hw : MayFollow w w') :
    readWord first ⟨x ++ w', p⟩ = (.ok e, ⟨w', p'⟩) := by
  have hspan : (span (fun ch => !endsWord ch) ⟨x ++ w, p⟩).2.rest = w := by
    unfold readWord at h
    exact congrArg Cursor.rest (Prod.mk.inj h).2
  have hstop : ∀ c, w'.head? = some c → (!endsWord c) = false := by
    refine hw.stops (fun c hc => ?_) (fun c hc => ?_)
    · rw [endsWord_of_endsSlash hc]
      rfl
    · have hdrop : (x ++ w).dropWhile (fun ch => !endsWord ch) = w := hspan
      rw [← hdrop] at hc
      exact head_dropWhile hc
  obtain ⟨hrun, hrun'⟩ := span_swap hspan hstop
  unfold readWord at h ⊢
  simp only [hrun, Prod.mk.injEq, Except.ok.injEq, Cursor.mk.injEq, true_and] at h
  obtain ⟨rfl, rfl⟩ := h
  simp only [hrun']

/-- **An atom depends on its characters and on what may follow it.** -/
theorem readAtom_swap {first : Char} {x w w' : List Char} {p p' : Position} {e : Sexp}
    (h : readAtom first ⟨x ++ w, p⟩ = (.ok e, ⟨w, p'⟩)) (hw : MayFollow w w') :
    readAtom first ⟨x ++ w', p⟩ = (.ok e, ⟨w', p'⟩) := by
  unfold readAtom at h ⊢
  by_cases hquote : first = '"' ∨ first = '\''
  · rw [if_pos hquote] at h ⊢
    have hne : first ≠ '\\' := by
      rcases hquote with rfl | rfl <;> decide
    exact readString_swap hne h w'
  · rw [if_neg hquote] at h ⊢
    by_cases hslash : first = '/'
    · rw [if_pos hslash] at h ⊢
      exact readSlash_swap h hw
    · rw [if_neg hslash] at h ⊢
      exact readWord_swap h hw

/-! ## Steps and runs -/

/-- **An accepted step depends on its characters and on what may follow it.** -/
theorem readStep_swap {frames : List Frame} {x w w' : List Char} {p : Position}
    (hok : (readStep frames ⟨x ++ w, p⟩).accepted = true)
    (hrest : (readStep frames ⟨x ++ w, p⟩).cursor.rest = w) (hw : MayFollow w w') :
    readStep frames ⟨x ++ w', p⟩ =
      (readStep frames ⟨x ++ w, p⟩).moveTo ⟨w', (readStep frames ⟨x ++ w, p⟩).cursor.position⟩ := by
  have hstep := readStep_stepsTo frames ⟨x ++ w, p⟩
  obtain ⟨taken, hne, htaken, _⟩ := readStep_accepted_split hok
  rw [hrest] at htaken
  -- the step takes all of `x` and nothing else
  have hx : x = taken := List.append_cancel_right htaken
  obtain ⟨first, x, rfl⟩ := List.exists_cons_of_ne_nil (hx ▸ hne)
  generalize readStep frames ⟨first :: x ++ w, p⟩ = s at hstep hok hrest
  rw [List.cons_append] at hstep
  apply StepsTo.readStep_eq
  rw [List.cons_append]
  cases hstep with
  | opening hopen hdepth =>
    have hnil : x = [] := List.append_left_eq_self.mp hrest
    subst hnil
    exact StepsTo.opening hopen hdepth
  | tooDeep hopen hdepth => simp [ReadStep.accepted] at hok
  | closing hopen hclose =>
    rw [deliver_cursor] at hrest ⊢
    have hnil : x = [] := List.append_left_eq_self.mp hrest
    subst hnil
    rw [deliver_moveTo]
    exact StepsTo.closing hopen hclose
  | unexpected hopen hclose hb => simp [ReadStep.accepted] at hok
  | @atom _ _ _ _ e stop hopen hclose hatom =>
    obtain ⟨rest, p'⟩ := stop
    rw [deliver_cursor] at hrest ⊢
    have hstop : rest = w := hrest
    subst hstop
    rw [deliver_moveTo]
    exact StepsTo.atom hopen hclose (readAtom_swap hatom hw)
  | cutOff hopen hclose hatom => simp [ReadStep.accepted] at hok

/-- The step after a gap, when `z` is what it leaves in front of the part that is replaced. -/
theorem readStep_skipGap_swap {frames : List Frame} {c : Cursor} {x z w w' : List Char}
    (hc : c.rest = x ++ w) (hok : (readStep frames c.skipGap).accepted = true)
    (hrest : (readStep frames c.skipGap).cursor.rest = z ++ w) (hw : MayFollow w w') :
    readStep frames (skipGap ⟨x ++ w', c.position⟩) =
      (readStep frames c.skipGap).moveTo
        ⟨z ++ w', (readStep frames c.skipGap).cursor.position⟩ := by
  obtain ⟨y, hy, hsplit, _⟩ := readStep_accepted_split hok
  rw [hrest] at hsplit
  have hskip : c.skipGap = ⟨y ++ (z ++ w), c.skipGap.position⟩ := by rw [← hsplit]
  have hown : skipGap ⟨x ++ w, c.position⟩ = ⟨(y ++ z) ++ w, c.skipGap.position⟩ := by
    rw [List.append_assoc, ← hskip, ← hc]
  have hgap : skipGap ⟨x ++ w', c.position⟩ = ⟨y ++ (z ++ w'), c.skipGap.position⟩ := by
    rw [← List.append_assoc]
    exact skipGap_swap hown (by simp [hy]) w'
  rw [hgap]
  rw [hskip] at hok hrest ⊢
  exact readStep_swap hok hrest (hw.append z)

/-- **A run that gives an expression depends on the characters it takes and on what may follow them.**
    The induction is on the run; at every step the characters that are still to be taken stand in front
    of the part that is replaced. -/
theorem readWithin_swap {frames : List Frame} {c : Cursor} {x w w' : List Char} {p' : Position}
    {e : Sexp} (hc : c.rest = x ++ w) (h : c.readWithin frames = (.ok (some e), ⟨w, p'⟩))
    (hw : MayFollow w w') :
    readWithin frames ⟨x ++ w', c.position⟩ = (.ok (some e), ⟨w', p'⟩) := by
  induction frames, c using readWithin.induct generalizing x with
  | case1 frames c outcome stop hstep =>
    rw [readWithin_eq, hstep] at h
    obtain ⟨rfl, rfl⟩ := Prod.mk.inj h
    have hswap := readStep_skipGap_swap (z := []) hc (by rw [hstep]; rfl) (by rw [hstep]; rfl) hw
    rw [readWithin_eq, hswap, hstep]
    rfl
  | case2 frames c frames' next hstep ih =>
    rw [readWithin_eq, hstep] at h
    obtain ⟨z, hz, _⟩ := readWithin_reaches frames' next
    rw [show next.readWithin frames' = _ from h] at hz
    have hswap := readStep_skipGap_swap hc (by rw [hstep]; rfl) (by rw [hstep]; exact hz) hw
    rw [readWithin_eq, hswap, hstep]
    exact ih hz h

/-! ## Extending the text -/

/-- The cursor in the same text with `t` behind it. -/
def extend (c : Cursor) (t : List Char) : Cursor := ⟨c.rest ++ t, c.position⟩

/-- A gap that ends before the text does ends at the same place in every longer text. -/
theorem skipGap_extend {c : Cursor} (h : c.skipGap.rest ≠ []) (t : List Char) :
    (c.extend t).skipGap = c.skipGap.extend t := by
  have hown : skipGap ⟨c.rest ++ [], c.position⟩ = ⟨c.skipGap.rest ++ [], c.skipGap.position⟩ := by
    rw [List.append_nil, List.append_nil]
  exact skipGap_swap hown h t

/-- An accepted step is the same step in a longer text. -/
theorem readStep_extend {frames : List Frame} {c : Cursor} {t : List Char}
    (hok : (readStep frames c).accepted = true)
    (ht : MayFollow (readStep frames c).cursor.rest ((readStep frames c).cursor.rest ++ t)) :
    readStep frames (c.extend t) =
      (readStep frames c).moveTo ((readStep frames c).cursor.extend t) := by
  obtain ⟨x, _, hsplit, _⟩ := readStep_accepted_split hok
  have hc : c = ⟨x ++ (readStep frames c).cursor.rest, c.position⟩ := by rw [← hsplit]
  have hext : c.extend t = ⟨x ++ ((readStep frames c).cursor.rest ++ t), c.position⟩ := by
    unfold extend
    rw [← List.append_assoc, ← hsplit]
  rw [hext]
  generalize hw : (readStep frames c).cursor.rest = w at hc ht ⊢
  rw [hc] at hok hw ⊢
  rw [readStep_swap hok hw ht]
  simp only [extend, hw]

/-- **An expression stays the same in a longer text.** -/
theorem readWithin_extend {frames : List Frame} {c stop : Cursor} {e : Sexp} {t : List Char}
    (h : c.readWithin frames = (.ok (some e), stop)) (ht : MayFollow stop.rest (stop.rest ++ t)) :
    (c.extend t).readWithin frames = (.ok (some e), stop.extend t) := by
  obtain ⟨x, hx, _⟩ := readWithin_reaches frames c
  rw [h] at hx
  have hext : c.extend t = ⟨x ++ (stop.rest ++ t), c.position⟩ := by
    unfold extend
    rw [← List.append_assoc, ← hx]
  rw [hext]
  exact readWithin_swap hx h ht

end Cursor

end FormScript
