import FormScript.Reading.Gap

/-!
# Gaps as texts

`Cursor.skipGap` is a loop over characters. Here its result is described by the text it passes:
`Gap` is a text of blanks and closed comments, `LastGap` also allows a comment that the end of the
text cuts off. A gap can be skipped in front of anything (`Gap.skipGap_append`), what is skipped is a
gap (`skipGap_split`), and the skipping does not depend on what stands behind the next expression
(`skipGap_swap`).
-/

namespace FormScript

/-- A text of blanks and of comments that are each ended by a line feed. -/
inductive Gap : List Char → Prop where
  | nil : Gap []
  | blank {c : Char} {cs : List Char} : isBlank c = true → Gap cs → Gap (c :: cs)
  | comment {body cs : List Char} : '\n' ∉ body → Gap cs → Gap (';' :: (body ++ '\n' :: cs))

/-- A gap at the end of a text, where the last comment needs no line feed. -/
inductive LastGap : List Char → Prop where
  | closed {cs : List Char} : Gap cs → LastGap cs
  | trailing {gap body : List Char} : Gap gap → '\n' ∉ body → LastGap (gap ++ ';' :: body)

/-- Whether a text begins with a character of a gap. -/
def beginsGap : List Char → Bool
  | [] => false
  | c :: _ => isBlank c || decide (c = ';')

theorem not_isBlank_semicolon : isBlank ';' = false := by decide

theorem isBlank_newline : isBlank '\n' = true := by decide

/-! ## Building gaps character by character -/

/-- A comment may have one more character at its front. -/
theorem Gap.comment_cons {c : Char} {cs : List Char} (hc : c ≠ '\n') (h : Gap (';' :: cs)) :
    Gap (';' :: c :: cs) := by
  cases h with
  | blank hblank _ => exact absurd hblank (by simp [not_isBlank_semicolon])
  | @comment body rest hbody hrest =>
    have hmem : '\n' ∉ c :: body := by
      intro hin
      rcases List.mem_cons.mp hin with heq | hin
      · exact hc heq.symm
      · exact hbody hin
    exact Gap.comment hmem hrest

theorem Gap.append {cs ds : List Char} (h : Gap cs) (k : Gap ds) : Gap (cs ++ ds) := by
  induction h with
  | nil => exact k
  | blank hc _ ih => exact Gap.blank hc ih
  | comment hbody _ ih =>
    rw [List.cons_append, List.append_assoc, List.cons_append]
    exact Gap.comment hbody ih

theorem LastGap.blank_cons {c : Char} {cs : List Char} (hc : isBlank c = true) (h : LastGap cs) :
    LastGap (c :: cs) := by
  cases h with
  | closed hgap => exact LastGap.closed (Gap.blank hc hgap)
  | trailing hgap hbody => exact LastGap.trailing (Gap.blank hc hgap) hbody

theorem Gap.comment_newline {cs : List Char} (h : Gap cs) : Gap (';' :: '\n' :: cs) := by
  have hnone : '\n' ∉ ([] : List Char) := List.not_mem_nil
  exact Gap.comment hnone h

theorem LastGap.comment_newline {cs : List Char} (h : LastGap cs) : LastGap (';' :: '\n' :: cs) := by
  cases h with
  | closed hgap => exact LastGap.closed hgap.comment_newline
  | trailing hgap hbody => exact LastGap.trailing hgap.comment_newline hbody

theorem LastGap.comment_cons {c : Char} {cs : List Char} (hc : c ≠ '\n') (h : LastGap (';' :: cs)) :
    LastGap (';' :: c :: cs) := by
  generalize htext : ';' :: cs = text at h
  cases h with
  | closed hgap =>
    subst htext
    exact LastGap.closed (Gap.comment_cons hc hgap)
  | @trailing gap body hgap hbody =>
    cases gap with
    | nil =>
      injection htext with _ htail
      subst htail
      have hmem : '\n' ∉ c :: cs := by
        intro hin
        rcases List.mem_cons.mp hin with heq | hin
        · exact hc heq.symm
        · exact hbody hin
      exact LastGap.trailing Gap.nil hmem
    | cons d gap =>
      injection htext with hhead htail
      subst hhead
      subst htail
      exact LastGap.trailing (Gap.comment_cons hc hgap) hbody

/-- A line feed ends whatever comment a last gap leaves open. -/
theorem LastGap.newline {cs : List Char} (h : LastGap cs) : Gap (cs ++ ['\n']) := by
  cases h with
  | closed hgap => exact hgap.append (Gap.blank isBlank_newline Gap.nil)
  | trailing hgap hbody =>
    rw [List.append_assoc, List.cons_append]
    exact hgap.append (Gap.comment hbody Gap.nil)

/-! ## Skipping a gap -/

namespace Cursor

theorem skipFrom_comment {body : List Char} (hbody : '\n' ∉ body) (rest : List Char) (p : Position) :
    skipFrom true (body ++ '\n' :: rest) p = skipFrom false rest (p.advance (body ++ ['\n'])) := by
  induction body generalizing p with
  | nil => rfl
  | cons c body ih =>
    have hc : c ≠ '\n' := fun heq => hbody (by simp [heq])
    have hrest : '\n' ∉ body := fun hin => hbody (List.mem_cons_of_mem c hin)
    simp only [List.cons_append, skipFrom, if_true, Position.advance_cons, decide_eq_true hc]
    exact ih hrest (p.step c)

end Cursor

/-- **A gap can be skipped in front of any text.** -/
theorem Gap.skipGap_append {gap : List Char} (h : Gap gap) (rest : List Char) (p : Position) :
    Cursor.skipGap ⟨gap ++ rest, p⟩ = Cursor.skipGap ⟨rest, p.advance gap⟩ := by
  induction h generalizing p with
  | nil => rfl
  | blank hc _ ih =>
    show Cursor.skipFrom false _ p = _
    simp only [List.cons_append, Cursor.skipFrom, hc, if_true, Position.advance_cons]
    exact ih (p.step _)
  | @comment body cs hbody _ ih =>
    have hopen : Cursor.skipGap ⟨(';' :: (body ++ '\n' :: cs)) ++ rest, p⟩
        = Cursor.skipFrom true (body ++ '\n' :: (cs ++ rest)) (p.step ';') := by
      show Cursor.skipFrom false _ p = _
      simp [Cursor.skipFrom, not_isBlank_semicolon]
    rw [hopen, Cursor.skipFrom_comment hbody]
    have hclose := ih ((p.step ';').advance (body ++ ['\n']))
    rw [← Position.advance_append, List.append_assoc] at hclose
    exact hclose

namespace Cursor

/-- Where no gap begins, nothing is skipped. -/
theorem skipGap_of_not_begins {c : Cursor} (h : beginsGap c.rest = false) : c.skipGap = c := by
  obtain ⟨rest, p⟩ := c
  cases rest with
  | nil => rfl
  | cons ch rest =>
    simp only [beginsGap, Bool.or_eq_false_iff, decide_eq_false_iff_not] at h
    show skipFrom false (ch :: rest) p = _
    simp [skipFrom, h.1, h.2]

/-- The text passed inside a comment is a gap once the semicolon stands in front of it. -/
def opened (inComment : Bool) (taken : List Char) : List Char :=
  if inComment then ';' :: taken else taken

/-- What the skipping passes is a gap, closed unless the text ends there; where it stops no gap
    begins. The induction is on the text, with `opened` carrying the comment that is under way. -/
theorem skipFrom_split (inComment : Bool) (cs : List Char) (p : Position) :
    ∃ taken, cs = taken ++ (skipFrom inComment cs p).rest
      ∧ (skipFrom inComment cs p).position = p.advance taken
      ∧ LastGap (opened inComment taken)
      ∧ ((skipFrom inComment cs p).rest ≠ [] → Gap (opened inComment taken))
      ∧ beginsGap (skipFrom inComment cs p).rest = false := by
  induction cs generalizing inComment p with
  | nil =>
    refine ⟨[], rfl, rfl, ?_, fun hne => absurd rfl hne, rfl⟩
    cases inComment with
    | false => exact LastGap.closed Gap.nil
    | true => exact LastGap.trailing Gap.nil List.not_mem_nil
  | cons c cs ih =>
    cases inComment with
    | true =>
      have hskip : skipFrom true (c :: cs) p = skipFrom (decide (c ≠ '\n')) cs (p.step c) := by
        simp [skipFrom]
      rw [hskip]
      obtain ⟨taken, hrest, hpos, hlast, hgap, hstop⟩ := ih (decide (c ≠ '\n')) (p.step c)
      refine ⟨c :: taken, by rw [List.cons_append, ← hrest], hpos, ?_, ?_, hstop⟩
      · by_cases hc : c = '\n'
        · subst hc
          exact LastGap.comment_newline hlast
        · rw [decide_eq_true hc] at hlast
          exact LastGap.comment_cons hc hlast
      · intro hne
        by_cases hc : c = '\n'
        · subst hc
          exact Gap.comment_newline (hgap hne)
        · rw [decide_eq_true hc] at hgap hne
          exact Gap.comment_cons hc (hgap hne)
    | false =>
      by_cases hblank : isBlank c = true
      · have hskip : skipFrom false (c :: cs) p = skipFrom false cs (p.step c) := by
          simp [skipFrom, hblank]
        rw [hskip]
        obtain ⟨taken, hrest, hpos, hlast, hgap, hstop⟩ := ih false (p.step c)
        exact ⟨c :: taken, by rw [List.cons_append, ← hrest], hpos, LastGap.blank_cons hblank hlast,
          fun hne => Gap.blank hblank (hgap hne), hstop⟩
      · by_cases hsemi : c = ';'
        · subst hsemi
          have hskip : skipFrom false (';' :: cs) p = skipFrom true cs (p.step ';') := by
            simp [skipFrom, not_isBlank_semicolon]
          rw [hskip]
          obtain ⟨taken, hrest, hpos, hlast, hgap, hstop⟩ := ih true (p.step ';')
          exact ⟨';' :: taken, by rw [List.cons_append, ← hrest], hpos, hlast, hgap, hstop⟩
        · have hskip : skipFrom false (c :: cs) p = ⟨c :: cs, p⟩ := by
            simp [skipFrom, hblank, hsemi]
          rw [hskip]
          exact ⟨[], rfl, rfl, LastGap.closed Gap.nil, fun _ => Gap.nil,
            by simp [beginsGap, hblank, hsemi]⟩

/-- **What is skipped is a gap.** -/
theorem skipGap_split (c : Cursor) :
    ∃ taken, c.rest = taken ++ c.skipGap.rest ∧ c.skipGap.position = c.position.advance taken
      ∧ LastGap taken ∧ (c.skipGap.rest ≠ [] → Gap taken) := by
  obtain ⟨taken, hrest, hpos, hlast, hgap, _⟩ := skipFrom_split false c.rest c.position
  exact ⟨taken, hrest, hpos, hlast, hgap⟩

theorem not_begins_skipGap (c : Cursor) : beginsGap c.skipGap.rest = false := by
  obtain ⟨_, _, _, _, _, hstop⟩ := skipFrom_split false c.rest c.position
  exact hstop

theorem skipGap_rest_nil {c : Cursor} (h : c.rest = []) : c.skipGap.rest = [] := by
  obtain ⟨taken, hrest, _⟩ := c.skipGap_split
  rw [h] at hrest
  exact (List.append_eq_nil_iff.mp hrest.symm).2

theorem skipGap_skipGap (c : Cursor) : c.skipGap.skipGap = c.skipGap :=
  skipGap_of_not_begins (not_begins_skipGap c)

/-- **Skipping looks no further than the next expression.** Behind at least one character that stays,
    the rest of the text may be replaced. -/
theorem skipGap_swap {x y w : List Char} {p p' : Position} (h : skipGap ⟨x ++ w, p⟩ = ⟨y ++ w, p'⟩)
    (hy : y ≠ []) (w' : List Char) : skipGap ⟨x ++ w', p⟩ = ⟨y ++ w', p'⟩ := by
  obtain ⟨taken, hrest, hpos, _, hgap⟩ := skipGap_split ⟨x ++ w, p⟩
  have hbegins := not_begins_skipGap ⟨x ++ w, p⟩
  rw [h] at hrest hpos hgap hbegins
  obtain ⟨ch, y, rfl⟩ := List.exists_cons_of_ne_nil hy
  have hx : x = taken ++ ch :: y := by
    rw [← List.append_assoc] at hrest
    exact List.append_cancel_right hrest
  have hp : p' = p.advance taken := hpos
  rw [hx, hp, List.append_assoc, (hgap (by simp)).skipGap_append]
  exact skipGap_of_not_begins hbegins

/-- A line feed after a text that is skipped to its end is skipped as well. -/
theorem skipGap_newline {x : List Char} {p p' : Position} (h : skipGap ⟨x, p⟩ = ⟨[], p'⟩)
    (w : List Char) : skipGap ⟨x ++ '\n' :: w, p⟩ = skipGap ⟨w, p'.step '\n'⟩ := by
  obtain ⟨taken, hrest, hpos, hlast, _⟩ := skipGap_split ⟨x, p⟩
  rw [h] at hrest hpos
  have hx : x = taken := by rw [List.append_nil] at hrest; exact hrest
  have hp : p' = p.advance taken := hpos
  have hskip := hlast.newline.skipGap_append w p
  rw [Position.advance_append, List.append_assoc] at hskip
  rw [hx, hp]
  exact hskip

end Cursor

end FormScript
