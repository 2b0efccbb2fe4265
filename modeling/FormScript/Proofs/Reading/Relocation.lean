import FormScript.Proofs.Reading.Step

/-!
# Relocation

The same text may be read from two different places, at the beginning of a file or in the middle of
one. Two cursors are `Parallel` when they stand at the same place of the same text, begun at `p` and
at `q`. Parallel runs give the same outcome and stay parallel, with one exception: the words `__LINE`
and `__COLUMN` read as the place they stand at. `Cursor.meets` says whether a run comes across such a
word, and `readWithin_relocate` asks of a run that does that the two places agree on the line or on
the column.
-/

namespace FormScript

namespace Position

/-- The line after some characters depends on the line before them. -/
theorem advance_line_congr {p q : Position} (h : p.line = q.line) (cs : List Char) :
    (p.advance cs).line = (q.advance cs).line := by
  induction cs generalizing p q with
  | nil => exact h
  | cons c cs ih =>
    rw [advance_cons, advance_cons]
    apply ih
    unfold step
    split
    · exact congrArg (· + 1) h
    · exact h

/-- The column after some characters depends on the column before them. -/
theorem advance_column_congr {p q : Position} (h : p.column = q.column) (cs : List Char) :
    (p.advance cs).column = (q.advance cs).column := by
  induction cs generalizing p q with
  | nil => exact h
  | cons c cs ih =>
    rw [advance_cons, advance_cons]
    apply ih
    unfold step
    split
    · rfl
    · exact congrArg (· + 1) h

end Position

/-- A word means the same at two places, unless it is the marker of something in which they differ. -/
theorem wordValue_congr {word : List Char} {p q : Position}
    (hline : word = lineMarker.toList → p.line = q.line)
    (hcolumn : word = columnMarker.toList → p.column = q.column) :
    wordValue word p = wordValue word q := by
  unfold wordValue
  cases Numeral.ofWord? word with
  | some numeral => rfl
  | none =>
    by_cases hl : String.ofList word = lineMarker
    · simp only [if_pos hl]
      rw [hline (by rw [← hl, String.toList_ofList])]
    · by_cases hc : String.ofList word = columnMarker
      · simp only [if_neg hl, if_pos hc]
        rw [hcolumn (by rw [← hc, String.toList_ofList])]
      · simp only [if_neg hl, if_neg hc]

namespace Cursor

/-- Two cursors at the same place of one text, when the text begins at `p` and at `q`. -/
def Parallel (p q : Position) (c d : Cursor) : Prop :=
  d.rest = c.rest ∧ ∃ taken, c.position = p.advance taken ∧ d.position = q.advance taken

namespace Parallel

variable {p q : Position} {c d : Cursor}

theorem refl (cs : List Char) (p q : Position) : Parallel p q ⟨cs, p⟩ ⟨cs, q⟩ := ⟨rfl, [], rfl, rfl⟩

theorem past (h : Parallel p q c d) (taken rest : List Char) :
    Parallel p q (c.past taken rest) (d.past taken rest) := by
  obtain ⟨_, before, hc, hd⟩ := h
  refine ⟨rfl, before ++ taken, ?_, ?_⟩
  · rw [Position.advance_append, ← hc]
    rfl
  · rw [Position.advance_append, ← hd]
    rfl

theorem next (h : Parallel p q c d) : Parallel p q c.next d.next := by
  unfold Cursor.next
  rw [h.1]
  split
  · exact h
  · exact h.past _ _

theorem toEnd (h : Parallel p q c d) : Parallel p q c.toEnd d.toEnd := by
  unfold Cursor.toEnd
  rw [h.1]
  exact h.past _ _

theorem span (h : Parallel p q c d) (keep : Char → Bool) :
    (d.span keep).1 = (c.span keep).1 ∧ Parallel p q (c.span keep).2 (d.span keep).2 := by
  unfold Cursor.span
  rw [h.1]
  exact ⟨rfl, h.past _ _⟩

/-- Cursors with the same text skip the same gap. -/
theorem skipGap (h : Parallel p q c d) : Parallel p q c.skipGap d.skipGap := by
  have hskip : ∀ (cs : List Char) (inComment : Bool) (a b : Position),
      Parallel p q ⟨cs, a⟩ ⟨cs, b⟩ →
      Parallel p q (skipFrom inComment cs a) (skipFrom inComment cs b) := by
    intro cs
    induction cs with
    | nil => exact fun _ _ _ hpar => hpar
    | cons ch cs ih =>
      intro inComment a b hpar
      have hstep : Parallel p q ⟨cs, a.step ch⟩ ⟨cs, b.step ch⟩ := hpar.past [ch] cs
      unfold skipFrom
      split
      · exact ih _ _ _ hstep
      · split
        · exact ih _ _ _ hstep
        · split
          · exact ih _ _ _ hstep
          · exact hpar
  obtain ⟨rest, a⟩ := c
  obtain ⟨rest', b⟩ := d
  have hrest : rest' = rest := h.1
  subst hrest
  exact hskip rest' false a b h

theorem line (h : Parallel p q c d) (hpq : p.line = q.line) : c.position.line = d.position.line := by
  obtain ⟨_, taken, hc, hd⟩ := h
  rw [hc, hd]
  exact Position.advance_line_congr hpq taken

theorem column (h : Parallel p q c d) (hpq : p.column = q.column) :
    c.position.column = d.position.column := by
  obtain ⟨_, taken, hc, hd⟩ := h
  rw [hc, hd]
  exact Position.advance_column_congr hpq taken

end Parallel

/-! ## Atoms -/

variable {p q : Position}

/-- The word that begins at the cursor. A string or a group begins with a character that no marker
    begins with, so there this is no marker. -/
def wordAt (c : Cursor) : List Char :=
  match c.rest with
  | [] => []
  | first :: tail => first :: tail.takeWhile fun ch => !endsWord ch

theorem readString_relocate {c d : Cursor} (h : Parallel p q c d) (quote : Char) :
    (d.readString quote).1 = (c.readString quote).1
      ∧ Parallel p q (c.readString quote).2 (d.readString quote).2 := by
  unfold readString
  rw [h.1]
  split
  · exact ⟨rfl, h.past _ _⟩
  · exact ⟨rfl, h.toEnd⟩

theorem readRegex_relocate {c d : Cursor} (h : Parallel p q c d) :
    d.readRegex.1 = c.readRegex.1 ∧ Parallel p q c.readRegex.2 d.readRegex.2 := by
  unfold readRegex
  rw [h.1]
  split
  · rename_i body rest _
    obtain ⟨hflags, hstop⟩ := (h.past (body ++ ['/']) rest).span isRegexFlag
    refine ⟨?_, hstop⟩
    show Except.ok (Sexp.regex _ (String.ofList (span isRegexFlag (d.past _ _)).1)) = _
    rw [hflags]
  · exact ⟨rfl, h.toEnd⟩

theorem readSlash_relocate {c d : Cursor} (h : Parallel p q c d) :
    d.readSlash.1 = c.readSlash.1 ∧ Parallel p q c.readSlash.2 d.readSlash.2 := by
  unfold readSlash
  rw [h.1]
  split
  · exact ⟨rfl, h⟩
  · split
    · split
      · exact ⟨rfl, h.next⟩
      · exact readRegex_relocate h
    · exact readRegex_relocate h

/-- The markers are the only words that look at the place. -/
theorem readWord_relocate {c d : Cursor} (h : Parallel p q c d) {first : Char}
    (hline : first :: (d.rest.takeWhile fun ch => !endsWord ch) = lineMarker.toList →
      p.line = q.line)
    (hcolumn : first :: (d.rest.takeWhile fun ch => !endsWord ch) = columnMarker.toList →
      p.column = q.column) :
    (d.readWord first).1 = (c.readWord first).1
      ∧ Parallel p q (c.readWord first).2 (d.readWord first).2 := by
  obtain ⟨htail, hstop⟩ := h.span fun ch => !endsWord ch
  have hword : wordValue (first :: (d.span fun ch => !endsWord ch).1)
        (d.span fun ch => !endsWord ch).2.position
      = wordValue (first :: (d.span fun ch => !endsWord ch).1)
        (c.span fun ch => !endsWord ch).2.position := by
    apply wordValue_congr
    · intro hmark
      exact (hstop.line (hline hmark)).symm
    · intro hmark
      exact (hstop.column (hcolumn hmark)).symm
  rw [htail] at hword
  refine ⟨?_, hstop⟩
  show Except.ok (wordValue (first :: (d.span fun ch => !endsWord ch).1) _) = _
  rw [htail]
  exact congrArg Except.ok hword

theorem readAtom_relocate {c d : Cursor} (h : Parallel p q c d) {first : Char}
    (hline : first :: (d.rest.takeWhile fun ch => !endsWord ch) = lineMarker.toList →
      p.line = q.line)
    (hcolumn : first :: (d.rest.takeWhile fun ch => !endsWord ch) = columnMarker.toList →
      p.column = q.column) :
    (d.readAtom first).1 = (c.readAtom first).1
      ∧ Parallel p q (c.readAtom first).2 (d.readAtom first).2 := by
  unfold readAtom
  split
  · exact readString_relocate h first
  · split
    · exact readSlash_relocate h
    · exact readWord_relocate h hline hcolumn

theorem readAtom_relocate_eq {c d : Cursor} (h : Parallel p q c d) {first : Char}
    (hline : first :: (d.rest.takeWhile fun ch => !endsWord ch) = lineMarker.toList →
      p.line = q.line)
    (hcolumn : first :: (d.rest.takeWhile fun ch => !endsWord ch) = columnMarker.toList →
      p.column = q.column)
    {outcome : Except ReadFault Sexp} {stop : Cursor} (hatom : c.readAtom first = (outcome, stop)) :
    ∃ stop', Parallel p q stop stop' ∧ d.readAtom first = (outcome, stop') := by
  obtain ⟨hvalue, hstop⟩ := readAtom_relocate h hline hcolumn
  rw [hatom] at hvalue hstop
  exact ⟨(d.readAtom first).2, hstop, Prod.ext hvalue rfl⟩

/-! ## Steps and runs -/

/-- **Parallel steps do the same**, if a marker at the cursor finds the two places to agree. -/
theorem readStep_relocate {frames : List Frame} {c d : Cursor} (h : Parallel p q c d)
    (hline : d.wordAt = lineMarker.toList → p.line = q.line)
    (hcolumn : d.wordAt = columnMarker.toList → p.column = q.column) :
    ∃ stop, Parallel p q (readStep frames c).cursor stop
      ∧ readStep frames d = (readStep frames c).moveTo stop := by
  have hstep := readStep_stepsTo frames c
  -- the rule that applies at `c` applies at `d`, where only the place differs
  obtain ⟨rest, b⟩ := d
  have hrest : rest = c.rest := h.1
  subst hrest
  generalize readStep frames c = s at hstep
  cases hstep with
  | @atEnd frames a =>
    refine ⟨⟨[], b⟩, ?_, ?_⟩
    · rw [atEnd_cursor]
      exact h
    · cases frames with
      | nil => rfl
      | cons f outer => rfl
  | @opening frames first tail a _ hopen hdepth =>
    exact ⟨⟨tail, b.step first⟩, h.past [first] tail,
      (StepsTo.opening hopen hdepth).readStep_eq⟩
  | tooDeep hopen hdepth => exact ⟨⟨_, b⟩, h, (StepsTo.tooDeep hopen hdepth).readStep_eq⟩
  | @closing f outer first tail a hopen hclose =>
    refine ⟨⟨tail, b.step first⟩, ?_, ?_⟩
    · rw [deliver_cursor]
      exact h.past [first] tail
    · rw [deliver_moveTo]
      exact (StepsTo.closing hopen hclose).readStep_eq
  | unexpected hopen hclose hb =>
    exact ⟨⟨_, b⟩, h, (StepsTo.unexpected hopen hclose hb).readStep_eq⟩
  | @atom frames first tail a e stop hopen hclose hatom =>
    have hnext : Parallel p q ⟨tail, a.step first⟩ ⟨tail, b.step first⟩ := h.past [first] tail
    obtain ⟨stop', hstop, hread⟩ := readAtom_relocate_eq hnext hline hcolumn hatom
    refine ⟨stop', ?_, ?_⟩
    · rw [deliver_cursor]
      exact hstop
    · rw [deliver_moveTo]
      exact (StepsTo.atom hopen hclose hread).readStep_eq
  | @cutOff frames first tail a fault stop hopen hclose hatom =>
    have hnext : Parallel p q ⟨tail, a.step first⟩ ⟨tail, b.step first⟩ := h.past [first] tail
    obtain ⟨stop', hstop, hread⟩ := readAtom_relocate_eq hnext hline hcolumn hatom
    exact ⟨stop', hstop, (StepsTo.cutOff hopen hclose hread).readStep_eq⟩

/-- Whether reading on inside the groups `frames` comes across the word `marker`. -/
def meets (marker : String) (frames : List Frame) (c : Cursor) : Bool :=
  decide (c.skipGap.wordAt = marker.toList) ||
    match _h : readStep frames c.skipGap with
    | .done _ _ => false
    | .more frames' next => meets marker frames' next
termination_by c.rest.length
decreasing_by exact Nat.lt_of_lt_of_le (readStep_more_length _h) c.skipGap_reaches.length_le

theorem meets_iff {marker : String} {frames : List Frame} {c : Cursor} :
    c.meets marker frames = true ↔ c.skipGap.wordAt = marker.toList ∨
      ∃ frames' next, readStep frames c.skipGap = .more frames' next
        ∧ next.meets marker frames' = true := by
  rw [meets, Bool.or_eq_true, decide_eq_true_eq]
  apply or_congr Iff.rfl
  split
  · rename_i hdone
    simp [hdone]
  · rename_i frames' next hmore
    constructor
    · intro h
      exact ⟨frames', next, hmore, h⟩
    · rintro ⟨_, _, hstep, h⟩
      rw [hmore] at hstep
      cases hstep
      exact h

/-- **Parallel runs give the same outcome and stay parallel**, if every marker they come across finds
    the two places to agree. -/
theorem readWithin_relocate {frames : List Frame} {c d : Cursor} (h : Parallel p q c d)
    (hline : d.meets lineMarker frames = true → p.line = q.line)
    (hcolumn : d.meets columnMarker frames = true → p.column = q.column) :
    (d.readWithin frames).1 = (c.readWithin frames).1
      ∧ Parallel p q (c.readWithin frames).2 (d.readWithin frames).2 := by
  induction frames, c using readWithin.induct generalizing d with
  | case1 frames c outcome stop hstep =>
    obtain ⟨stop', hstop, hmove⟩ := readStep_relocate h.skipGap
      (fun hword => hline (meets_iff.mpr (Or.inl hword)))
      (fun hword => hcolumn (meets_iff.mpr (Or.inl hword)))
    rw [hstep] at hstop hmove
    rw [readWithin_eq frames c, readWithin_eq frames d, hstep, hmove]
    exact ⟨rfl, hstop⟩
  | case2 frames c frames' next hstep ih =>
    obtain ⟨next', hnext, hmove⟩ := readStep_relocate h.skipGap
      (fun hword => hline (meets_iff.mpr (Or.inl hword)))
      (fun hword => hcolumn (meets_iff.mpr (Or.inl hword)))
    rw [hstep] at hnext hmove
    rw [readWithin_eq frames c, readWithin_eq frames d, hstep, hmove]
    exact ih hnext (fun hmeets => hline (meets_iff.mpr (Or.inr ⟨frames', next', hmove, hmeets⟩)))
      (fun hmeets => hcolumn (meets_iff.mpr (Or.inr ⟨frames', next', hmove, hmeets⟩)))

theorem wordAt_prefix (c : Cursor) : c.wordAt <+: c.rest := by
  unfold wordAt
  cases c.rest with
  | nil => exact List.prefix_rfl
  | cons first tail => exact List.cons_prefix_cons.mpr ⟨rfl, List.takeWhile_prefix _⟩

theorem Reaches.suffix {c d : Cursor} (h : c.Reaches d) : d.rest <:+ c.rest := by
  obtain ⟨taken, hrest, _⟩ := h
  exact ⟨taken, hrest.symm⟩

/-- A run comes only across words that stand in the text. -/
theorem infix_of_meets {marker : String} {frames : List Frame} {c : Cursor}
    (h : c.meets marker frames = true) : marker.toList <:+: c.rest := by
  induction frames, c using readWithin.induct with
  | case1 frames c outcome stop hstep =>
    rcases meets_iff.mp h with hword | ⟨frames', next, hmore, _⟩
    · rw [← hword]
      exact c.skipGap.wordAt_prefix.isInfix.trans c.skipGap_reaches.suffix.isInfix
    · rw [hstep] at hmore
      cases hmore
  | case2 frames c frames' next hstep ih =>
    rcases meets_iff.mp h with hword | ⟨frames'', next', hmore, hmeets⟩
    · rw [← hword]
      exact c.skipGap.wordAt_prefix.isInfix.trans c.skipGap_reaches.suffix.isInfix
    · rw [hstep] at hmore
      cases hmore
      have hreach := (readStep_cursor frames c.skipGap).1
      rw [hstep] at hreach
      exact (ih hmeets).trans (c.skipGap_reaches.trans hreach).suffix.isInfix

end Cursor

end FormScript
