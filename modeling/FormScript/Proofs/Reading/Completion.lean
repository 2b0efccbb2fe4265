import FormScript.Proofs.Reading.Scan

/-!
# Malformed and incomplete texts

A fault is either malformed or incomplete, and the difference is whether more text can mend it. A
malformed fault is found again in every longer text, at the same place and behind the same expressions
(`scan_extend_of_malformed`). An incomplete text has a completion (`exists_completion`): what the text
leaves open is, from the inside out, at most a pending escape, a string or a regular expression, a
comment and some groups, and each of them can be closed.
-/

namespace FormScript

/-! ## Delimiters -/

/-- A text without its delimiter lacks only that; a backslash at its end protects one more character. -/
theorem splitDelimited_complete {delimiter : Char} (hd : delimiter ≠ '\\') {cs : List Char}
    (h : splitDelimited delimiter cs = none) :
    ∃ u, ∀ w, splitDelimited delimiter (cs ++ (u ++ delimiter :: w)) = some (cs ++ u, w) := by
  fun_induction splitDelimited delimiter cs with
  | case1 => exact ⟨[], splitDelimited_delimiter hd⟩
  | case2 => cases h
  | case3 c hne =>
    by_cases hc : c = '\\'
    · -- the delimiter that is added first is protected, so another one must follow
      subst hc
      refine ⟨[delimiter], fun w => ?_⟩
      simp [splitDelimited, splitDelimited_delimiter hd]
    · refine ⟨[], fun w => ?_⟩
      show splitDelimited delimiter (c :: delimiter :: w) = _
      rw [splitDelimited_cons hc hne (by simp), splitDelimited_delimiter hd]
      rfl
  | case4 d cs ih =>
    obtain ⟨u, hu⟩ := ih (Option.map_eq_none_iff.mp h)
    refine ⟨u, fun w => ?_⟩
    simp [splitDelimited, hu w]
  | case5 => cases h
  | case6 c d cs hc hne ih =>
    obtain ⟨u, hu⟩ := ih (Option.map_eq_none_iff.mp h)
    refine ⟨u, fun w => ?_⟩
    rw [List.cons_append, splitDelimited_cons hc hne (by simp), hu w]
    rfl

/-- A slash that opens a regular expression does so in every longer text. -/
theorem opensRegex_append {cs : List Char} (h : opensRegex cs = true) (t : List Char) :
    opensRegex (cs ++ t) = true := by
  match cs, t with
  | [], _ => cases h
  | [c], [] => exact h
  | [c], d :: t =>
    simp only [opensRegex, Bool.and_eq_true, Bool.not_eq_true', decide_eq_true_eq] at h
    simp [opensRegex, h.1, h.2]
  | c :: d :: cs, t => exact h

namespace Cursor

/-! ## Atoms that are cut off -/

/-- An atom is at fault only if its delimiter is missing. -/
theorem readAtom_error {first : Char} {c stop : Cursor} {fault : ReadFault}
    (h : c.readAtom first = (.error fault, stop)) :
    splitDelimited first c.rest = none
      ∧ ((first = '"' ∨ first = '\'') ∧ fault = .unterminatedString
        ∨ first = '/' ∧ opensRegex c.rest = true ∧ fault = .unterminatedRegex) := by
  unfold readAtom at h
  split at h
  · rename_i hquote
    unfold readString at h
    split at h
    · cases h
    · rename_i hsplit
      cases h
      exact ⟨hsplit, Or.inl ⟨hquote, rfl⟩⟩
  · split at h
    · rename_i hslash
      subst hslash
      rcases slash_cases c.rest with halone | ⟨rest, hrest, halone⟩ | hregex
      · rw [readSlash_of_standsAlone halone] at h
        cases h
      · rw [readSlash_of_equals hrest halone] at h
        cases h
      · rw [readSlash_of_opensRegex hregex] at h
        unfold readRegex at h
        split at h
        · cases h
        · rename_i hsplit
          cases h
          exact ⟨hsplit, Or.inr ⟨rfl, hregex, rfl⟩⟩
    · cases h

/-- **An atom that is cut off can be completed**, in front of anything that ends a lone slash. -/
theorem readAtom_complete {first : Char} {c stop : Cursor} {fault : ReadFault}
    (h : c.readAtom first = (.error fault, stop)) :
    ∃ u, ∀ w, standsAlone w = true →
      ∃ e p, (c.extend (u ++ w)).readAtom first = (.ok e, ⟨w, p⟩) := by
  obtain ⟨hsplit, ⟨hquote, _⟩ | ⟨rfl, hregex, _⟩⟩ := readAtom_error h
  · have hne : first ≠ '\\' := by
      rcases hquote with rfl | rfl <;> decide
    obtain ⟨u, hu⟩ := splitDelimited_complete hne hsplit
    refine ⟨u ++ [first], fun w _ => ?_⟩
    have hw : splitDelimited first (c.extend (u ++ [first] ++ w)).rest = some (c.rest ++ u, w) := by
      rw [List.append_assoc]
      exact hu w
    refine ⟨.string (String.ofList (c.rest ++ u)), c.position.advance (c.rest ++ u ++ [first]), ?_⟩
    unfold readAtom readString
    rw [if_pos hquote, hw]
    rfl
  · obtain ⟨u, hu⟩ := splitDelimited_complete (by decide) hsplit
    refine ⟨u ++ ['/'], fun w halone => ?_⟩
    have hw : splitDelimited '/' (c.extend (u ++ ['/'] ++ w)).rest = some (c.rest ++ u, w) := by
      rw [List.append_assoc]
      exact hu w
    have hflag : ∀ ch, w.head? = some ch → isRegexFlag ch = false := by
      intro ch hch
      cases w with
      | nil => cases hch
      | cons d w =>
        cases hch
        exact not_isRegexFlag_of_endsSlash halone
    -- nothing behind the slash is a flag
    have hspan : ∀ p, span isRegexFlag ⟨w, p⟩ = ([], ⟨w, p⟩) := by
      intro p
      exact (span_swap (x := []) (w := []) rfl hflag).2
    refine ⟨.regex (String.ofList (c.rest ++ u)) "", c.position.advance (c.rest ++ u ++ ['/']), ?_⟩
    show (c.extend (u ++ ['/'] ++ w)).readSlash = _
    rw [readSlash_of_opensRegex (opensRegex_append hregex _)]
    unfold readRegex
    rw [hw]
    simp only [past, hspan]
    rfl

/-! ## Closing groups -/

/-- The brackets that close the groups `frames`, the innermost first. -/
def closers (frames : List Frame) : List Char := frames.map fun f => f.bracket.closing

theorem standsAlone_closers (frames : List Frame) : standsAlone (closers frames) = true := by
  cases frames with
  | nil => rfl
  | cons f outer => exact f.bracket.standsAlone_closing (closers outer)

/-- An expression that is finished inside some groups becomes part of a whole one once they are
    closed. -/
theorem run_deliver_closers (e : Sexp) (frames : List Frame) (p : Position) :
    ∃ e' p', (ReadStep.deliver e frames ⟨closers frames, p⟩).run = (.ok (some e'), ⟨[], p'⟩) := by
  induction frames generalizing e p with
  | nil => exact ⟨e, p, rfl⟩
  | cons f outer ih =>
    obtain ⟨e', p', hrun⟩ := ih (f.push e).close (p.step f.bracket.closing)
    refine ⟨e', p', ?_⟩
    show readWithin (f.push e :: outer) ⟨(f.push e).bracket.closing :: closers outer, p⟩ = _
    rw [readWithin_closing]
    exact hrun

/-! ## Steps and runs in a longer text -/

theorem rest_ne_nil_of_more {frames frames' : List Frame} {c next : Cursor}
    (h : readStep frames c = .more frames' next) : c.rest ≠ [] := by
  intro hnil
  have hlt := readStep_more_length h
  rw [hnil] at hlt
  exact Nat.not_lt_zero _ hlt

/-- A step that goes on does so in a longer text. -/
theorem readWithin_extend_of_more {frames frames' : List Frame} {c next : Cursor} {t : List Char}
    (hstep : readStep frames c.skipGap = .more frames' next)
    (ht : next.rest = [] → standsAlone t = true) :
    (c.extend t).readWithin frames = (next.extend t).readWithin frames' := by
  have hfollow : MayFollow next.rest (next.rest ++ t) := by
    by_cases hnil : next.rest = []
    · exact MayFollow.of_standsAlone (ht hnil) next.rest
    · exact MayFollow.of_ne_nil hnil t
  have hextend : readStep frames (c.skipGap.extend t) = .more frames' (next.extend t) := by
    have hmove := readStep_extend (by rw [hstep]; rfl) (by rw [hstep]; exact hfollow)
    rw [hmove, hstep]
    rfl
  rw [readWithin_eq, skipGap_extend (rest_ne_nil_of_more hstep) t, hextend]
  rfl

/-- A malformed fault is found at a character, by looking at that character alone. -/
theorem readStep_extend_of_malformed {frames : List Frame} {c stop : Cursor} {fault : ReadFault}
    (h : readStep frames c = .done (.error fault) stop) (hm : fault.severity = .malformed) :
    c.rest ≠ [] ∧ ∀ t, readStep frames (c.extend t) = .done (.error fault) (stop.extend t) := by
  have hstep := readStep_stepsTo frames c
  rw [h] at hstep
  generalize hs : ReadStep.done (.error fault) stop = s at hstep
  cases hstep with
  | @atEnd frames p =>
    cases frames with
    | nil => cases hs
    | cons f outer => cases hs; cases hm
  | opening => cases hs
  | tooDeep hopen hdepth =>
    cases hs
    exact ⟨by simp, fun t => (StepsTo.tooDeep hopen hdepth).readStep_eq⟩
  | @closing f outer => cases outer <;> cases hs
  | unexpected hopen hclose hb =>
    cases hs
    exact ⟨by simp, fun t => (StepsTo.unexpected hopen hclose hb).readStep_eq⟩
  | @atom frames => cases frames <;> cases hs
  | cutOff hopen hclose hatom =>
    -- an atom is never malformed
    cases hs
    obtain ⟨_, ⟨_, rfl⟩ | ⟨_, _, rfl⟩⟩ := readAtom_error hatom <;> cases hm

/-- **No longer text mends a malformed run.** -/
theorem readWithin_extend_of_malformed {frames : List Frame} {c stop : Cursor} {fault : ReadFault}
    (h : c.readWithin frames = (.error fault, stop)) (hm : fault.severity = .malformed) :
    c.rest ≠ [] ∧ ∀ t, (c.extend t).readWithin frames = (.error fault, stop.extend t) := by
  induction frames, c using readWithin.induct with
  | case1 frames c outcome stop' hstep =>
    rw [readWithin_eq, hstep] at h
    cases h
    obtain ⟨hne, hextend⟩ := readStep_extend_of_malformed hstep hm
    refine ⟨mt skipGap_rest_nil hne, fun t => ?_⟩
    rw [readWithin_eq, skipGap_extend hne t, hextend t]
    rfl
  | case2 frames c frames' next hstep ih =>
    rw [readWithin_eq, hstep] at h
    obtain ⟨hne, hextend⟩ := ih h
    refine ⟨mt skipGap_rest_nil (rest_ne_nil_of_more hstep), fun t => ?_⟩
    rw [readWithin_extend_of_more hstep (fun hnil => absurd hnil hne)]
    exact hextend t

/-- A step that the end of the text cuts off can be completed. -/
theorem readStep_complete {frames : List Frame} {c stop : Cursor} {fault : ReadFault}
    (h : readStep frames c.skipGap = .done (.error fault) stop)
    (hi : fault.severity = .incomplete) :
    ∃ t, (c.rest = [] → standsAlone t = true)
      ∧ ∃ e p, (c.extend t).readWithin frames = (.ok (some e), ⟨[], p⟩) := by
  have hstep := readStep_stepsTo frames c.skipGap
  rw [h] at hstep
  generalize hs : ReadStep.done (.error fault) stop = s at hstep
  generalize hc : c.skipGap = d at hstep
  cases hstep with
  | @atEnd frames p =>
    -- a line feed ends the comment that may be open, the brackets end the groups
    refine ⟨'\n' :: closers frames, fun _ => standsAlone_newline _, ?_⟩
    cases frames with
    | nil => cases hs
    | cons f outer =>
      obtain ⟨e, p', hrun⟩ := run_deliver_closers f.close outer ((p.step '\n').step f.bracket.closing)
      refine ⟨e, p', ?_⟩
      have hskip : (c.extend ('\n' :: closers (f :: outer))).skipGap
          = skipGap ⟨closers (f :: outer), p.step '\n'⟩ := skipGap_newline hc _
      rw [readWithin_eq, hskip, ← readWithin_eq]
      exact (readWithin_closing f outer (closers outer) (p.step '\n')).trans hrun
  | opening => cases hs
  | tooDeep => cases hs; cases hi
  | @closing f outer => cases outer <;> cases hs
  | unexpected => cases hs; cases hi
  | @atom frames => cases frames <;> cases hs
  | @cutOff frames first tail p _ _ hopen hclose hatom =>
    obtain ⟨u, hu⟩ := readAtom_complete hatom
    obtain ⟨e, p', hread⟩ := hu (closers frames) (standsAlone_closers frames)
    obtain ⟨e', p'', hrun⟩ := run_deliver_closers e frames p'
    have hne : c.skipGap.rest ≠ [] := by rw [hc]; simp
    refine ⟨u ++ closers frames, fun hnil => absurd hnil (mt skipGap_rest_nil hne), e', p'', ?_⟩
    have hstep : StepsTo frames (c.skipGap.extend (u ++ closers frames))
        (ReadStep.deliver e frames ⟨closers frames, p'⟩) := by
      rw [hc]
      exact StepsTo.atom hopen hclose hread
    rw [readWithin_eq, skipGap_extend hne, hstep.readStep_eq]
    exact hrun

/-- **An incomplete run can be completed.** The induction is on the run. Behind a step that takes the
    last character of the text, the completion must not be taken for a part of the same atom, so it
    begins like something that ends a lone slash. -/
theorem readWithin_complete {frames : List Frame} {c stop : Cursor} {fault : ReadFault}
    (h : c.readWithin frames = (.error fault, stop)) (hi : fault.severity = .incomplete) :
    ∃ t, (c.rest = [] → standsAlone t = true)
      ∧ ∃ e p, (c.extend t).readWithin frames = (.ok (some e), ⟨[], p⟩) := by
  induction frames, c using readWithin.induct with
  | case1 frames c outcome stop' hstep =>
    rw [readWithin_eq, hstep] at h
    cases h
    exact readStep_complete hstep hi
  | case2 frames c frames' next hstep ih =>
    rw [readWithin_eq, hstep] at h
    obtain ⟨t, ht, e, p, hrun⟩ := ih h
    have hne := mt skipGap_rest_nil (rest_ne_nil_of_more hstep)
    refine ⟨t, fun hnil => absurd hnil hne, e, p, ?_⟩
    rw [readWithin_extend_of_more hstep ht]
    exact hrun

/-! ## Scans -/

/-- **A malformed text stays malformed**, and everything read before the fault is read again. -/
theorem scan_extend_of_malformed {c : Cursor} {fault : ReadFault} (h : c.scan.fault = some fault)
    (hm : fault.severity = .malformed) (t : List Char) :
    (c.extend t).scan = ⟨c.scan.items, some fault, c.scan.stop.extend t⟩ := by
  induction c using scan.induct with
  | case1 c fault' stop hrun =>
    rw [scan_of_error hrun] at h ⊢
    cases h
    exact scan_of_error ((readWithin_extend_of_malformed hrun hm).2 t)
  | case2 c stop hrun =>
    rw [scan_of_none hrun] at h
    cases h
  | case3 c e stop hrun ih =>
    rw [scan_of_some hrun] at h ⊢
    have hne : stop.rest ≠ [] := rest_ne_nil_of_fault h
    rw [scan_extend_of_some hrun (MayFollow.of_ne_nil hne t), ih h]
    rfl

/-- **An incomplete text has a completion.** -/
theorem exists_completion {c : Cursor} {fault : ReadFault} (h : c.scan.fault = some fault)
    (hi : fault.severity = .incomplete) : ∃ t, (c.extend t).scan.fault = none := by
  induction c using scan.induct with
  | case1 c fault' stop hrun =>
    rw [scan_of_error hrun] at h
    cases h
    obtain ⟨t, _, e, p, hcomplete⟩ := readWithin_complete hrun hi
    refine ⟨t, ?_⟩
    rw [scan_of_some hcomplete, scan_of_none (readWithin_nil_of_skipGap rfl)]
    rfl
  | case2 c stop hrun =>
    rw [scan_of_none hrun] at h
    cases h
  | case3 c e stop hrun ih =>
    rw [scan_of_some hrun] at h
    obtain ⟨t, ht⟩ := ih h
    -- the fault stands behind this expression, so the completion does not touch it
    have hne : stop.rest ≠ [] := rest_ne_nil_of_fault h
    refine ⟨t, ?_⟩
    rw [scan_extend_of_some hrun (MayFollow.of_ne_nil hne t)]
    exact ht

end Cursor

/-! ## Texts -/

/-- **The severity of a failure is exact.** A text that cannot be read is incomplete if and only if it
    is the beginning of a text that can. If it is malformed, every text that it begins fails for the same
    fault at the same place, behind the same expressions; only the name of the text changes. -/
theorem severity_exact {s : String} {error : ReadError}
    (h : (Reader.ofText s).readAll.error = some error) :
    (error.severity = .incomplete ↔ ∃ t, (Reader.ofText (s ++ t)).readAll.error = none)
      ∧ (error.severity = .malformed →
        ∃ fault, error = .ofFault fault (Reader.textName s) ∧ ∀ t,
          (Reader.ofText (s ++ t)).readAll.items = (Reader.ofText s).readAll.items
            ∧ (Reader.ofText (s ++ t)).readAll.error
              = some (.ofFault fault (Reader.textName (s ++ t)))
            ∧ (Reader.ofText (s ++ t)).readAll.reader.position
              = (Reader.ofText s).readAll.reader.position) := by
  obtain ⟨hitems, hstop, herror⟩ := Reader.readAll_ofText s
  obtain ⟨fault, hfault, rfl⟩ := Option.map_eq_some_iff.mp (herror.symm.trans h)
  have hextend : ∀ t : String,
      Cursor.ofText (s ++ t).toList = (Cursor.ofText s.toList).extend t.toList := by
    intro t
    rw [String.toList_append]
    rfl
  have hmalformed : fault.severity = .malformed → ∀ t,
      (Reader.ofText (s ++ t)).readAll.items = (Reader.ofText s).readAll.items
        ∧ (Reader.ofText (s ++ t)).readAll.error = some (.ofFault fault (Reader.textName (s ++ t)))
        ∧ (Reader.ofText (s ++ t)).readAll.reader.position
          = (Reader.ofText s).readAll.reader.position := by
    intro hm t
    obtain ⟨hitems', hstop', herror'⟩ := Reader.readAll_ofText (s ++ t)
    rw [hextend, Cursor.scan_extend_of_malformed hfault hm] at hitems' hstop' herror'
    refine ⟨hitems'.trans hitems.symm, herror', ?_⟩
    have hposition := congrArg Cursor.position (hstop'.trans rfl)
    exact hposition.trans (congrArg Cursor.position hstop).symm
  refine ⟨⟨?_, ?_⟩, fun hm => ⟨fault, rfl, hmalformed hm⟩⟩
  · intro hi
    obtain ⟨t, ht⟩ := Cursor.exists_completion hfault hi
    refine ⟨String.ofList t, ?_⟩
    rw [(Reader.readAll_ofText _).2.2, hextend, String.toList_ofList, ht]
    rfl
  · rintro ⟨t, ht⟩
    cases hm : fault.severity with
    | incomplete => exact hm
    | malformed =>
      rw [(hmalformed hm t).2.1] at ht
      cases ht

/-- An open group can still be closed, but not once another bracket has been met in it. -/
theorem severity_exact_group :
    (∃ t, (Reader.ofText ("(a" ++ t)).readAll.error = none)
      ∧ ¬ ∃ t, (Reader.ofText ("(a]" ++ t)).readAll.error = none := by
  have hopen : (Reader.ofText "(a").readAll.error
      = some (.ofFault (.unterminatedGroup .round) (Reader.textName "(a")) := by decide +kernel
  have hother : (Reader.ofText "(a]").readAll.error
      = some (.ofFault (.unexpectedClosing .square) (Reader.textName "(a]")) := by decide +kernel
  refine ⟨(severity_exact hopen).1.mp rfl, fun hmend => ?_⟩
  cases (severity_exact hother).1.mpr hmend

end FormScript
