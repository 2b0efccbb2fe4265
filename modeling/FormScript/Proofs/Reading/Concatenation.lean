import FormScript.Proofs.Reading.Relocation
import FormScript.Proofs.Reading.Scan

/-!
# Texts behind each other

A text that is read to its end does not notice what stands behind it on a new line, and the text there
is read as if it stood alone, with every place moved on by the characters and lines in front of it. The
column stays, so only a text that asks for its line can tell the difference (`readAll_join`).
-/

namespace FormScript

/-! ## Shifted places -/

namespace Position

/-- The place `k` characters and `l` lines further on, in the same column. -/
def shift (k l : Nat) (p : Position) : Position := ⟨p.offset + k, p.line + l, p.column⟩

theorem shift_step (k l : Nat) (p : Position) (c : Char) :
    (p.shift k l).step c = (p.step c).shift k l := by
  unfold step shift
  by_cases hc : c = '\n'
  · simp only [if_pos hc, mk.injEq, and_true]
    omega
  · simp only [if_neg hc, mk.injEq, and_true]
    omega

theorem shift_advance (k l : Nat) (p : Position) (cs : List Char) :
    (p.shift k l).advance cs = (p.advance cs).shift k l := by
  induction cs generalizing p with
  | nil => rfl
  | cons c cs ih =>
    rw [advance_cons, shift_step, ih]
    rfl

/-- Every line feed opens a line. -/
theorem advance_line (p : Position) (cs : List Char) :
    (p.advance cs).line = p.line + cs.count '\n' := by
  induction cs generalizing p with
  | nil => rfl
  | cons c cs ih =>
    rw [advance_cons, ih]
    by_cases hc : c = '\n'
    · subst hc
      rw [List.count_cons_self]
      simp only [step, if_true]
      omega
    · rw [List.count_cons_of_ne hc]
      simp only [step, if_neg hc]

/-- A text on a new line begins like a text of its own, further on. -/
theorem start_advance_newline (cs : List Char) :
    (start.advance cs).step '\n' = start.shift (cs.length + 1) (1 + cs.count '\n') := by
  have hoffset := advance_offset start cs
  have hline := advance_line start cs
  simp only [step, if_true, shift, mk.injEq]
  refine ⟨?_, ?_, rfl⟩ <;> omega

end Position

/-- The expression `k` characters and `l` lines further on. -/
def Located.shift (k l : Nat) (item : Located) : Located :=
  ⟨item.expression, item.start.shift k l, item.stop.shift k l⟩

namespace Cursor

/-- The cursor in the same text, when the text stands `k` characters and `l` lines further on. -/
def shift (k l : Nat) (c : Cursor) : Cursor := ⟨c.rest, c.position.shift k l⟩

/-- Parallel cursors stay as far apart as they began. -/
theorem Parallel.eq_shift {k l : Nat} {p : Position} {c d : Cursor}
    (h : Parallel p (p.shift k l) c d) : d = c.shift k l := by
  obtain ⟨hrest, taken, hc, hd⟩ := h
  rw [Position.shift_advance, ← hc] at hd
  exact (Cursor.mk.injEq _ _ _ _).mpr ⟨hrest, hd⟩

theorem skipGap_shift (k l : Nat) (c : Cursor) : (c.shift k l).skipGap = c.skipGap.shift k l :=
  (Parallel.refl c.rest c.position (c.position.shift k l)).skipGap.eq_shift

/-- **A text that does not ask for its line is read alike further on.** -/
theorem readWithin_shift (k l : Nat) {frames : List Frame} {c : Cursor}
    (h : ¬ lineMarker.toList <:+: c.rest) :
    (c.shift k l).readWithin frames
      = ((c.readWithin frames).1, (c.readWithin frames).2.shift k l) := by
  have hpar : Parallel c.position (c.position.shift k l) c (c.shift k l) :=
    Parallel.refl c.rest c.position (c.position.shift k l)
  have hline : (c.shift k l).meets lineMarker frames = true →
      c.position.line = (c.position.shift k l).line := by
    intro hmeets
    exact absurd (infix_of_meets hmeets) h
  obtain ⟨hvalue, hstop⟩ := readWithin_relocate hpar hline (fun _ => rfl)
  exact Prod.ext hvalue hstop.eq_shift

end Cursor

/-! ## Scans -/

namespace Scan

/-- The scan of the same text `k` characters and `l` lines further on. -/
def shift (k l : Nat) (s : Scan) : Scan :=
  ⟨s.items.map (Located.shift k l), s.fault, s.stop.shift k l⟩

/-- The scan with some expressions in front. -/
def behind (items : List Located) (s : Scan) : Scan := { s with items := items ++ s.items }

end Scan

namespace Cursor

theorem scan_shift (k l : Nat) {c : Cursor} (h : ¬ lineMarker.toList <:+: c.rest) :
    (c.shift k l).scan = c.scan.shift k l := by
  induction c using scan.induct with
  | case1 c fault stop hrun =>
    have hshift : (c.shift k l).readWithin [] = _ := readWithin_shift k l h
    rw [hrun] at hshift
    rw [scan_of_error hrun, scan_of_error hshift]
    rfl
  | case2 c stop hrun =>
    have hshift : (c.shift k l).readWithin [] = _ := readWithin_shift k l h
    rw [hrun] at hshift
    rw [scan_of_none hrun, scan_of_none hshift]
    rfl
  | case3 c e stop hrun ih =>
    have hshift : (c.shift k l).readWithin [] = _ := readWithin_shift k l h
    rw [hrun] at hshift
    have hsuffix := (readWithin_reaches [] c).suffix
    rw [hrun] at hsuffix
    rw [scan_of_some hrun, scan_of_some hshift,
      ih (fun hmarked => h (hmarked.trans hsuffix.isInfix)), skipGap_shift]
    rfl

/-- **A line feed separates two texts.** -/
theorem scan_newline {c : Cursor} (h : c.scan.fault = none) (w : List Char) :
    (c.extend ('\n' :: w)).scan
      = (scan ⟨w, c.scan.stop.position.step '\n'⟩).behind c.scan.items := by
  induction c using scan.induct with
  | case1 c fault stop hrun =>
    rw [scan_of_error hrun] at h
    cases h
  | case2 c stop hrun =>
    -- only a gap is left, perhaps with a comment that the line feed ends
    obtain ⟨hstop, hrest⟩ := readWithin_none hrun
    have hend : c.skipGap = ⟨[], stop.position⟩ := by rw [hstop, ← hrest]
    rw [scan_of_none hrun]
    exact scan_congr (skipGap_newline hend w)
  | case3 c e stop hrun ih =>
    rw [scan_of_some hrun] at h ⊢
    -- at the end of the text and at a line feed an expression ends alike
    have hfollow : MayFollow stop.rest (stop.rest ++ '\n' :: w) :=
      MayFollow.of_standsAlone (standsAlone_newline w) stop.rest
    rw [scan_extend_of_some hrun hfollow, ih h]
    rfl

/-- A text that is read to its end, a line feed and another text, which does not ask for its line. -/
theorem scan_join {cs ds : List Char} (hcs : (ofText cs).scan.fault = none)
    (hds : ¬ lineMarker.toList <:+: ds) :
    (ofText (cs ++ '\n' :: ds)).scan
      = ((ofText ds).scan.shift (cs.length + 1) (1 + cs.count '\n')).behind (ofText cs).scan.items := by
  have hjoin := scan_newline hcs ds
  rw [scan_end hcs] at hjoin
  have hplace : (⟨ds, (Position.start.advance cs).step '\n'⟩ : Cursor)
      = (ofText ds).shift (cs.length + 1) (1 + cs.count '\n') :=
    congrArg (Cursor.mk ds) (Position.start_advance_newline cs)
  rw [← scan_shift _ _ hds, ← hplace]
  exact hjoin

end Cursor

/-! ## Readers -/

/-- **Reading two texts that a line feed separates.** -/
theorem Reader.readAll_join {a b : String} (ha : (ofText a).readAll.error = none)
    (hb : ¬ lineMarker.toList <:+: b.toList) :
    (ofText (a ++ "\n" ++ b)).readAll.items = (ofText a).readAll.items
        ++ (ofText b).readAll.items.map (Located.shift (a.length + 1) (1 + a.toList.count '\n'))
      ∧ (ofText (a ++ "\n" ++ b)).readAll.reader.position
        = (ofText b).readAll.reader.position.shift (a.length + 1) (1 + a.toList.count '\n')
      ∧ ∃ fault : Option ReadFault,
        (ofText b).readAll.error = fault.map (.ofFault · (textName b))
          ∧ (ofText (a ++ "\n" ++ b)).readAll.error
            = fault.map (.ofFault · (textName (a ++ "\n" ++ b))) := by
  obtain ⟨hitemsA, _, herrorA⟩ := readAll_ofText a
  obtain ⟨hitemsB, hstopB, herrorB⟩ := readAll_ofText b
  obtain ⟨hitems, hstop, herror⟩ := readAll_ofText (a ++ "\n" ++ b)
  have htext : (a ++ "\n" ++ b).toList = a.toList ++ '\n' :: b.toList := by
    rw [String.toList_append, String.toList_append, List.append_assoc]
    rfl
  have hfault : (Cursor.ofText a.toList).scan.fault = none := by
    rw [herrorA, Option.map_eq_none_iff] at ha
    exact ha
  rw [htext, Cursor.scan_join hfault hb, String.length_toList] at hitems hstop herror
  refine ⟨?_, ?_, _, herrorB, herror⟩
  · rw [hitems, hitemsA, hitemsB]
    rfl
  · calc (ofText (a ++ "\n" ++ b)).readAll.reader.position
        = ((Cursor.ofText b.toList).scan.stop.shift (a.length + 1)
            (1 + a.toList.count '\n')).position := congrArg Cursor.position hstop
      _ = (ofText b).readAll.reader.position.shift (a.length + 1) (1 + a.toList.count '\n') := by
        rw [← hstopB]
        rfl

end FormScript
