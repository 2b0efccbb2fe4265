import FormScript.Reading.Expression
import FormScript.Text.Source

/-!
# Reading through a source

A source shows the character under its cursor (`peek`) and moves over it (`advance`), and reading from it
goes by these two alone: a character is looked at when its turn comes, and then it has been pulled.

What is read so is what is read from the text as a whole. For every function here there is one of the same
name on cursors, and the source is left where the cursor is (`skipGap_eq`, `readAtom_eq`, `readStep_eq`,
`readExpression_eq`).
-/

namespace FormScript

namespace Source

/-! ## One character after the other -/

/-- Moves on while the characters are to be kept; these, and the source at the first that is not. -/
def takeWhile (keep : Char → Bool) (s : Source) : List Char × Source :=
  match _h : s.peek with
  | none => ([], s)
  | some c =>
    if keep c then
      let (taken, stop) := s.advance.takeWhile keep
      (c :: taken, stop)
    else ([], s)
termination_by s.rest.length
decreasing_by exact advance_length_lt _h

/-- Skips a gap that begins under the cursor, or goes on there inside a comment. -/
def skipFrom (inComment : Bool) (s : Source) : Source :=
  match _h : s.peek with
  | none => s
  | some c =>
    if inComment then s.advance.skipFrom (decide (c ≠ '\n'))
    else if isBlank c then s.advance.skipFrom false
    else if c = ';' then s.advance.skipFrom true
    else s
termination_by s.rest.length
decreasing_by all_goals exact advance_length_lt _h

/-- The source after the gap that begins under its cursor. -/
def skipGap (s : Source) : Source := s.skipFrom false

/-- The text up to the first `delimiter` that no backslash protects, and the source behind it; `none` if
    the text ends before. The character under the cursor is protected if `escaped`. -/
def readDelimited (delimiter : Char) (escaped : Bool) (s : Source) : Option (List Char) × Source :=
  match _h : s.peek with
  | none => (none, s)
  | some c =>
    if !escaped && c = delimiter then (some [], s.advance)
    else
      let (body, stop) := s.advance.readDelimited delimiter (!escaped && c = '\\')
      (body.map (c :: ·), stop)
termination_by s.rest.length
decreasing_by exact advance_length_lt _h

/-! ## Atoms -/

/-- A string, after its opening quote. -/
def readString (quote : Char) (s : Source) : Except ReadFault Sexp × Source :=
  match s.readDelimited quote false with
  | (some body, stop) => (.ok (.string (String.ofList body)), stop)
  | (none, stop) => (.error .unterminatedString, stop)

/-- A regular expression, after its opening slash and the characters `begun` of its pattern. -/
def readRegex (begun : List Char) (s : Source) : Except ReadFault Sexp × Source :=
  match s.readDelimited '/' false with
  | (some body, stop) =>
    let (flags, stop) := stop.takeWhile isRegexFlag
    (.ok (.regex (String.ofList (begun ++ body)) (String.ofList flags)), stop)
  | (none, stop) => (.error .unterminatedRegex, stop)

/-- What a slash begins, after the slash: `/`, `/=` or a regular expression. -/
def readSlash (s : Source) : Except ReadFault Sexp × Source :=
  if s.peek.all endsSlash then (.ok (.symbol "/"), s)
  else if s.peek = some '=' then
    if s.advance.peek.all endsSlash then (.ok (.symbol "/="), s.advance)
    else s.advance.readRegex ['=']
  else s.readRegex []

/-- A word with the first character `first`, after that character. -/
def readWord (first : Char) (s : Source) : Except ReadFault Sexp × Source :=
  let (tail, stop) := s.takeWhile fun ch => !endsWord ch
  (.ok (wordValue (first :: tail) stop.position), stop)

/-- The atom with the first character `first`, after that character. -/
def readAtom (first : Char) (s : Source) : Except ReadFault Sexp × Source :=
  if first = '"' ∨ first = '\'' then s.readString first
  else if first = '/' then s.readSlash
  else s.readWord first

open ReadStep

/-- One step at a source that stands on no gap. -/
def readStep (frames : List Frame) (s : Source) : ReadStep Source :=
  match s.peek with
  | none => atEnd frames s
  | some first =>
    match Bracket.ofOpening? first with
    | some b => atOpening b frames s s.advance
    | none =>
      match Bracket.ofClosing? first with
      | some b => atClosing b frames s s.advance
      | none =>
        match s.advance.readAtom first with
        | (.error fault, stop) => .done (.error fault) stop
        | (.ok e, stop) => deliver e frames stop

/-! ## The same is read at the cursor -/

/-- A result at a cursor, with the source moved there. -/
def follow {α : Type} (s : Source) (result : α × Cursor) : α × Source :=
  (result.1, s.moveTo result.2)

theorem rest_eq_nil {s : Source} (h : s.peek = none) : s.rest = [] := by
  rw [peek_eq] at h
  exact List.head?_eq_none_iff.mp h

theorem rest_eq_cons {s : Source} {c : Char} (h : s.peek = some c) :
    s.rest = c :: s.advance.rest ∧ s.advance.position = s.position.step c := by
  rw [peek_eq] at h
  obtain ⟨tail, htail⟩ := List.head?_eq_some_iff.mp h
  have hnext : s.advance.cursor = ⟨tail, s.position.step c⟩ := by
    rw [advance_cursor]
    simp [Cursor.next, cursor, htail, Cursor.past]
  refine ⟨?_, congrArg Cursor.position hnext⟩
  rw [htail, show s.advance.rest = tail from congrArg Cursor.rest hnext]

/-- A move and then more moves. -/
theorem advance_moveTo {s : Source} {d : Cursor} (h : s.advance.cursor.Reaches d) :
    s.advance.moveTo d = s.moveTo d := by
  rw [advance_cursor] at h
  rw [advance_eq_moveTo, moveTo_moveTo s.cursor.next_reaches h]

theorem takeWhile_eq (keep : Char → Bool) (s : Source) :
    s.takeWhile keep = s.follow (s.cursor.span keep) := by
  fun_induction takeWhile keep s with
  | case1 s hpeek =>
    have hspan : s.cursor.span keep = ([], s.cursor) := by
      simp [Cursor.span, cursor, rest_eq_nil hpeek, Cursor.past]
    rw [hspan]
    exact Prod.ext rfl s.moveTo_self.symm
  | case2 s c hpeek hkeep taken stop htail ih =>
    obtain ⟨hrest, hposition⟩ := rest_eq_cons hpeek
    have hspan : s.cursor.span keep
        = (c :: (s.advance.cursor.span keep).1, (s.advance.cursor.span keep).2) := by
      simp [Cursor.span, cursor, hrest, hkeep, hposition, Cursor.past]
    have hmoved := advance_moveTo (s.advance.cursor.span_reaches keep)
    rw [htail] at ih
    cases ih
    rw [hspan]
    exact Prod.ext rfl hmoved
  | case3 s c hpeek hkeep =>
    obtain ⟨hrest, _⟩ := rest_eq_cons hpeek
    have hspan : s.cursor.span keep = ([], s.cursor) := by
      simp [Cursor.span, cursor, hrest, hkeep, Cursor.past]
    rw [hspan]
    exact Prod.ext rfl s.moveTo_self.symm

theorem skipFrom_eq (inComment : Bool) (s : Source) :
    s.skipFrom inComment = s.moveTo (Cursor.skipFrom inComment s.rest s.position) := by
  fun_induction skipFrom inComment s with
  | case1 inComment s hpeek =>
    have hstays : Cursor.skipFrom inComment s.rest s.position = s.cursor := by
      simp [Cursor.skipFrom, cursor, rest_eq_nil hpeek]
    rw [hstays, moveTo_self]
  | case2 s c hpeek ih =>
    obtain ⟨hrest, hposition⟩ := rest_eq_cons hpeek
    rw [ih, advance_moveTo (Cursor.skipFrom_reaches _ _ _), hrest, hposition]
    simp [Cursor.skipFrom]
  | case3 inComment s c hpeek hcomment hblank ih =>
    obtain ⟨hrest, hposition⟩ := rest_eq_cons hpeek
    rw [ih, advance_moveTo (Cursor.skipFrom_reaches _ _ _), hrest, hposition]
    simp [Cursor.skipFrom, hcomment, hblank]
  | case4 inComment s hcomment hpeek hblank ih =>
    obtain ⟨hrest, hposition⟩ := rest_eq_cons hpeek
    rw [ih, advance_moveTo (Cursor.skipFrom_reaches _ _ _), hrest, hposition]
    simp [Cursor.skipFrom, hcomment, hblank]
  | case5 inComment s c hpeek hcomment hblank hcolon =>
    obtain ⟨hrest, _⟩ := rest_eq_cons hpeek
    have hstays : Cursor.skipFrom inComment s.rest s.position = s.cursor := by
      simp [Cursor.skipFrom, cursor, hrest, hcomment, hblank, hcolon]
    rw [hstays, moveTo_self]

theorem skipGap_eq (s : Source) : s.skipGap = s.moveTo s.cursor.skipGap := skipFrom_eq false s

theorem skipGap_cursor (s : Source) : s.skipGap.cursor = s.cursor.skipGap := by
  rw [skipGap_eq]
  exact moveTo_cursor s.cursor.skipGap_reaches

theorem readDelimited_of_none {s : Source} (h : s.peek = none) (delimiter : Char) (escaped : Bool) :
    s.readDelimited delimiter escaped = (none, s) := by
  rw [readDelimited]
  split
  · rfl
  · simp_all

theorem readDelimited_of_some {s : Source} {c : Char} (h : s.peek = some c) (delimiter : Char)
    (escaped : Bool) :
    s.readDelimited delimiter escaped
      = if !escaped && c = delimiter then (some [], s.advance)
        else Prod.map (Option.map (c :: ·)) id
          (s.advance.readDelimited delimiter (!escaped && c = '\\')) := by
  rw [readDelimited]
  split
  · simp_all
  · rename_i d hpeek
    cases h.symm.trans hpeek
    rfl

end Source

/-- The text up to the first `delimiter` that no backslash protects, and the cursor behind it or at the end
    of the text. -/
def Cursor.readDelimited (delimiter : Char) (c : Cursor) : Option (List Char) × Cursor :=
  match splitDelimited delimiter c.rest with
  | some (body, rest) => (some body, c.past (body ++ [delimiter]) rest)
  | none => (none, c.toEnd)

namespace Cursor

theorem readDelimited_reaches (delimiter : Char) (c : Cursor) :
    c.Reaches (c.readDelimited delimiter).2 := by
  unfold readDelimited
  split
  · rename_i h
    exact past_reaches (splitDelimited_eq_append h)
  · exact c.toEnd_reaches

theorem readDelimited_nil (delimiter : Char) (p : Position) :
    readDelimited delimiter ⟨[], p⟩ = (none, ⟨[], p⟩) := rfl

theorem readDelimited_delimiter {delimiter : Char} (h : delimiter ≠ '\\') (cs : List Char) (p : Position) :
    readDelimited delimiter ⟨delimiter :: cs, p⟩ = (some [], ⟨cs, p.step delimiter⟩) := by
  cases cs with
  | nil => simp [readDelimited, splitDelimited, past]
  | cons d cs => simp [readDelimited, splitDelimited, h, past]

/-- A character that ends nothing and protects nothing belongs to the text. -/
theorem readDelimited_cons {delimiter c : Char} (hc : c ≠ delimiter) (hplain : c ≠ '\\')
    (cs : List Char) (p : Position) :
    readDelimited delimiter ⟨c :: cs, p⟩
      = Prod.map (Option.map (c :: ·)) id (readDelimited delimiter ⟨cs, p.step c⟩) := by
  cases cs with
  | nil => simp [readDelimited, splitDelimited, hc, toEnd, past]
  | cons d cs =>
    simp only [readDelimited, splitDelimited, if_neg hplain, if_neg hc]
    cases splitDelimited delimiter (d :: cs) with
    | none => rfl
    | some found => rfl

/-- A backslash and the character that it protects belong to the text. -/
theorem readDelimited_protected (delimiter d : Char) (cs : List Char) (p : Position) :
    readDelimited delimiter ⟨'\\' :: d :: cs, p⟩
      = Prod.map (Option.map ('\\' :: d :: ·)) id
        (readDelimited delimiter ⟨cs, (p.step '\\').step d⟩) := by
  simp only [readDelimited, splitDelimited, if_true]
  cases splitDelimited delimiter cs with
  | none => rfl
  | some found => rfl

/-- A string is what stands before its closing quote. -/
theorem readString_eq (quote : Char) (c : Cursor) :
    c.readString quote = match c.readDelimited quote with
      | (some body, stop) => (.ok (.string (String.ofList body)), stop)
      | (none, stop) => (.error .unterminatedString, stop) := by
  unfold readString readDelimited
  cases splitDelimited quote c.rest with
  | none => rfl
  | some found => rfl

/-- A regular expression is what stands before its closing slash, and the flags behind it. -/
theorem readRegex_eq (c : Cursor) :
    c.readRegex = match c.readDelimited '/' with
      | (some body, stop) => (.ok (.regex (String.ofList body) (String.ofList (stop.span isRegexFlag).1)),
          (stop.span isRegexFlag).2)
      | (none, stop) => (.error .unterminatedRegex, stop) := by
  unfold readRegex readDelimited
  cases splitDelimited '/' c.rest with
  | none => rfl
  | some found => rfl

theorem readSlash_nil (p : Position) : readSlash ⟨[], p⟩ = (.ok (.symbol "/"), ⟨[], p⟩) := rfl

theorem readSlash_cons (c : Char) (cs : List Char) (p : Position) :
    readSlash ⟨c :: cs, p⟩
      = if endsSlash c then (.ok (.symbol "/"), ⟨c :: cs, p⟩)
        else if c = '=' then
          if cs.head?.all endsSlash then (.ok (.symbol "/="), ⟨cs, p.step c⟩)
          else readRegex ⟨c :: cs, p⟩
        else readRegex ⟨c :: cs, p⟩ := by
  have halone : ∀ ds : List Char, standsAlone ds = ds.head?.all endsSlash := by
    rintro (_ | ⟨d, ds⟩) <;> rfl
  unfold readSlash
  rw [halone, show (Cursor.mk (c :: cs) p).rest.head? = some c from rfl, Option.all_some]
  by_cases hends : endsSlash c = true
  · rw [if_pos hends, if_pos hends]
  rw [if_neg hends, if_neg hends]
  by_cases hequals : c = '='
  · subst hequals
    rw [if_pos rfl, ← halone]
    rfl
  · rw [if_neg hequals]
    split
    · rename_i heq
      cases heq
      exact absurd rfl hequals
    · rfl

end Cursor

namespace Source

theorem cursor_of_none {s : Source} (h : s.peek = none) : s.cursor = ⟨[], s.position⟩ := by
  unfold cursor
  rw [rest_eq_nil h]

theorem cursor_of_some {s : Source} {c : Char} (h : s.peek = some c) :
    s.cursor = ⟨c :: s.advance.rest, s.position⟩
      ∧ s.advance.cursor = ⟨s.advance.rest, s.position.step c⟩ := by
  obtain ⟨hrest, hposition⟩ := rest_eq_cons h
  unfold cursor
  rw [hrest, hposition]
  exact ⟨rfl, rfl⟩

theorem follow_advance {α : Type} {s : Source} {result : α × Cursor}
    (h : s.advance.cursor.Reaches result.2) : s.advance.follow result = s.follow result :=
  Prod.ext rfl (advance_moveTo h)

theorem follow_self {α : Type} (s : Source) (a : α) : s.follow (a, s.cursor) = (a, s) :=
  Prod.ext rfl s.moveTo_self

theorem follow_next {α : Type} (s : Source) (a : α) : s.follow (a, s.advance.cursor) = (a, s.advance) := by
  rw [advance_cursor]
  exact Prod.ext rfl s.advance_eq_moveTo.symm

theorem readDelimited_eq {delimiter : Char} (hdelimiter : delimiter ≠ '\\') (s : Source) :
    s.readDelimited delimiter false = s.follow (s.cursor.readDelimited delimiter) := by
  induction hlength : s.rest.length using Nat.strongRecOn generalizing s with
  | ind n ih =>
    subst hlength
    cases hpeek : s.peek with
    | none =>
      rw [readDelimited_of_none hpeek]
      have hcursor := cursor_of_none hpeek
      rw [hcursor, Cursor.readDelimited_nil, ← hcursor, follow_self]
    | some c =>
      obtain ⟨hcursor, hnext⟩ := cursor_of_some hpeek
      have hshorter := advance_length_lt hpeek
      rw [readDelimited_of_some hpeek]
      by_cases hc : c = delimiter
      · subst hc
        rw [if_pos (by simp), hcursor, Cursor.readDelimited_delimiter hdelimiter, ← hnext, follow_next]
      rw [if_neg (by simp [hc])]
      by_cases hplain : c = '\\'
      · subst hplain
        rw [show (!false && decide ('\\' = '\\')) = true from rfl]
        cases hsecond : s.advance.peek with
        | none =>
          have hcut : Cursor.readDelimited delimiter ⟨['\\'], s.position⟩
              = (none, ⟨[], s.position.step '\\'⟩) := by
            simp [Cursor.readDelimited, splitDelimited, hc, Cursor.toEnd, Cursor.past]
          have hrest := rest_eq_nil hsecond
          rw [hrest] at hcursor hnext
          rw [readDelimited_of_none hsecond, hcursor, hcut, ← hnext, follow_next]
          rfl
        | some d =>
          -- the protected character is passed whatever it is
          obtain ⟨hrest, hposition⟩ := rest_eq_cons hsecond
          have hbehind : s.advance.advance.cursor
              = ⟨s.advance.advance.rest, (s.position.step '\\').step d⟩ := by
            rw [← (rest_eq_cons hpeek).2, ← hposition]
            rfl
          have hreach := Cursor.readDelimited_reaches delimiter s.advance.advance.cursor
          have hreach' := s.advance.cursor.next_reaches
          rw [← advance_cursor] at hreach'
          rw [readDelimited_of_some hsecond, if_neg (by simp), Bool.not_true, Bool.false_and,
            ih _ (Nat.lt_trans (advance_length_lt hsecond) hshorter) _ rfl, follow_advance hreach,
            follow_advance (hreach'.trans hreach), hcursor, hrest, Cursor.readDelimited_protected,
            ← hbehind]
          cases s.advance.advance.cursor.readDelimited delimiter with
          | mk body stop =>
            cases body with
            | none => rfl
            | some body => rfl
      · rw [show (!false && decide (c = '\\')) = false by simp [hplain], ih _ hshorter _ rfl,
          follow_advance (Cursor.readDelimited_reaches _ _), hcursor,
          Cursor.readDelimited_cons hc hplain, ← hnext]
        rfl

theorem follow_moveTo {α : Type} {s : Source} {c : Cursor} {result : α × Cursor}
    (h : s.cursor.Reaches c) (k : c.Reaches result.2) :
    (s.moveTo c).follow result = s.follow result :=
  Prod.ext rfl (moveTo_moveTo h k)

theorem readString_eq {quote : Char} (hquote : quote ≠ '\\') (s : Source) :
    s.readString quote = s.follow (s.cursor.readString quote) := by
  unfold readString
  rw [readDelimited_eq hquote, Cursor.readString_eq]
  cases s.cursor.readDelimited quote with
  | mk body stop =>
    cases body with
    | none => rfl
    | some body => rfl

/-- After the characters `begun` of its pattern a regular expression goes on as if it began there. -/
theorem readRegex_of_delimited {begun : List Char} {s : Source} {c : Cursor}
    (hbegun : c.readDelimited '/'
      = Prod.map (Option.map (begun ++ ·)) id (s.cursor.readDelimited '/')) :
    s.readRegex begun = s.follow c.readRegex := by
  unfold readRegex
  rw [readDelimited_eq (by decide), Cursor.readRegex_eq, hbegun]
  have hstop := Cursor.readDelimited_reaches '/' s.cursor
  cases hread : s.cursor.readDelimited '/' with
  | mk body stop =>
    rw [hread] at hstop
    cases body with
    | none => rfl
    | some body =>
      simp only [follow]
      rw [takeWhile_eq, moveTo_cursor hstop, follow_moveTo hstop (stop.span_reaches _)]
      rfl

theorem readRegex_eq (s : Source) : s.readRegex [] = s.follow s.cursor.readRegex := by
  apply readRegex_of_delimited
  cases s.cursor.readDelimited '/' with
  | mk body stop =>
    cases body with
    | none => rfl
    | some body => rfl

theorem readRegex_of_equals {s : Source} (h : s.peek = some '=') :
    s.advance.readRegex ['='] = s.follow s.cursor.readRegex := by
  obtain ⟨hcursor, hnext⟩ := cursor_of_some h
  have hbegun : s.cursor.readDelimited '/'
      = Prod.map (Option.map (['='] ++ ·)) id (s.advance.cursor.readDelimited '/') := by
    rw [hcursor, Cursor.readDelimited_cons (by decide) (by decide), ← hnext]
    rfl
  have hreach : s.advance.cursor.Reaches s.cursor.readRegex.2 := by
    rw [Cursor.readRegex_eq, hbegun]
    have hstop := Cursor.readDelimited_reaches '/' s.advance.cursor
    cases hread : s.advance.cursor.readDelimited '/' with
    | mk body stop =>
      rw [hread] at hstop
      cases body with
      | none => exact hstop
      | some body => exact hstop.trans (stop.span_reaches _)
  rw [readRegex_of_delimited hbegun, follow_advance hreach]

theorem readSlash_eq (s : Source) : s.readSlash = s.follow s.cursor.readSlash := by
  unfold readSlash
  cases hpeek : s.peek with
  | none =>
    have hcursor := cursor_of_none hpeek
    rw [hcursor, Cursor.readSlash_nil, ← hcursor, follow_self]
    rfl
  | some c =>
    obtain ⟨hcursor, hnext⟩ := cursor_of_some hpeek
    rw [hcursor, Cursor.readSlash_cons, ← hcursor, ← hnext, peek_eq, Option.all_some]
    by_cases hends : endsSlash c = true
    · rw [if_pos hends, if_pos hends, follow_self]
    rw [if_neg hends, if_neg hends]
    by_cases hequals : c = '='
    · subst hequals
      rw [if_pos rfl, if_pos rfl]
      split
      · exact (follow_next s _).symm
      · exact readRegex_of_equals hpeek
    · rw [if_neg hequals, if_neg (by simpa using hequals)]
      exact readRegex_eq s

theorem readWord_eq (first : Char) (s : Source) : s.readWord first = s.follow (s.cursor.readWord first) := by
  have hstop := s.cursor.span_reaches fun ch => !endsWord ch
  have hposition : (s.moveTo (s.cursor.span fun ch => !endsWord ch).2).position
      = (s.cursor.span fun ch => !endsWord ch).2.position :=
    congrArg Cursor.position (moveTo_cursor hstop)
  unfold readWord Cursor.readWord
  rw [takeWhile_eq]
  simp only [follow, hposition]

theorem readAtom_eq (first : Char) (s : Source) : s.readAtom first = s.follow (s.cursor.readAtom first) := by
  unfold readAtom Cursor.readAtom
  split
  · rename_i hquote
    apply readString_eq
    rintro rfl
    exact absurd hquote (by decide)
  · split
    · exact s.readSlash_eq
    · exact s.readWord_eq first

open ReadStep

/-- **A step at a source is a step at its cursor.** -/
theorem readStep_eq (frames : List Frame) (s : Source) :
    s.readStep frames = (s.cursor.readStep frames).map s.moveTo := by
  unfold readStep Cursor.readStep
  cases hpeek : s.peek with
  | none =>
    rw [show s.cursor.rest = [] from rest_eq_nil hpeek]
    simp only [atEnd_map, moveTo_self]
  | some first =>
    rw [show s.cursor.rest = _ from (rest_eq_cons hpeek).1]
    cases hopen : Bracket.ofOpening? first with
    | some b => simp only [hopen, atOpening_map, moveTo_self, ← advance_eq_moveTo]
    | none =>
      cases hclose : Bracket.ofClosing? first with
      | some b => simp only [hopen, hclose, atClosing_map, moveTo_self, ← advance_eq_moveTo]
      | none =>
        have hreach := s.advance.cursor.readAtom_reaches first
        simp only [hopen, hclose]
        rw [readAtom_eq, follow_advance hreach, advance_cursor]
        cases s.cursor.next.readAtom first with
        | mk outcome stop =>
          cases outcome with
          | error fault => rfl
          | ok e => exact (deliver_map s.moveTo e frames stop).symm

/-! ## Expressions -/

/-- A source that reads on stands at the cursor that does. -/
theorem readStep_more {frames frames' : List Frame} {s next : Source}
    (h : s.readStep frames = .more frames' next) :
    ∃ c, s.cursor.readStep frames = .more frames' c ∧ s.cursor.Reaches c ∧ next = s.moveTo c := by
  rw [readStep_eq] at h
  have hreach := (Cursor.readStep_cursor frames s.cursor).1
  cases hstep : s.cursor.readStep frames with
  | done outcome stop =>
    rw [hstep] at h
    cases h
  | more frames'' c =>
    rw [hstep] at h hreach
    cases h
    exact ⟨c, rfl, hreach, rfl⟩

theorem readStep_done {frames : List Frame} {s stop : Source} {outcome : Except ReadFault (Option Sexp)}
    (h : s.readStep frames = .done outcome stop) :
    ∃ c, s.cursor.readStep frames = .done outcome c ∧ s.cursor.Reaches c ∧ stop = s.moveTo c := by
  rw [readStep_eq] at h
  have hreach := (Cursor.readStep_cursor frames s.cursor).1
  cases hstep : s.cursor.readStep frames with
  | more frames' next =>
    rw [hstep] at h
    cases h
  | done outcome' c =>
    rw [hstep] at h hreach
    cases h
    exact ⟨c, rfl, hreach, rfl⟩

theorem readStep_more_length {frames frames' : List Frame} {s next : Source}
    (h : s.skipGap.readStep frames = .more frames' next) : next.rest.length < s.rest.length := by
  obtain ⟨c, hstep, hreach, rfl⟩ := readStep_more h
  have hrest : (s.skipGap.moveTo c).rest = c.rest := congrArg Cursor.rest (moveTo_cursor hreach)
  rw [skipGap_cursor] at hstep
  rw [hrest]
  exact Nat.lt_of_lt_of_le (Cursor.readStep_more_length hstep) s.cursor.skipGap_reaches.length_le

/-- Reads on inside the open groups `frames` until an expression is complete outside all of them.
    The result is `none` at the end of the source when no group is open. -/
def readWithin (frames : List Frame) (s : Source) : Except ReadFault (Option Sexp) × Source :=
  match _h : s.skipGap.readStep frames with
  | .done outcome stop => (outcome, stop)
  | .more frames' next => next.readWithin frames'
termination_by s.rest.length
decreasing_by exact readStep_more_length _h

/-- Reads the expression under the cursor. -/
def readExpression (s : Source) : Except ReadFault (Option Sexp) × Source := s.readWithin []

/-- A gap and a step go to where the step at the cursor goes. -/
theorem skipGap_moveTo {s : Source} {c : Cursor} (h : s.skipGap.cursor.Reaches c) :
    s.skipGap.moveTo c = s.moveTo c := by
  rw [skipGap_cursor] at h
  rw [skipGap_eq, moveTo_moveTo s.cursor.skipGap_reaches h]

/-- **A run at a source is a run at its cursor.** -/
theorem readWithin_eq (frames : List Frame) (s : Source) :
    s.readWithin frames = s.follow (s.cursor.readWithin frames) := by
  fun_induction readWithin frames s with
  | case1 frames s outcome stop hstep =>
    obtain ⟨c, hcursor, hreach, rfl⟩ := readStep_done hstep
    rw [skipGap_moveTo hreach, Cursor.readWithin_eq, ← skipGap_cursor, hcursor]
    rfl
  | case2 frames s frames' next hstep ih =>
    obtain ⟨c, hcursor, hreach, rfl⟩ := readStep_more hstep
    have hthere : s.cursor.Reaches c := by
      rw [skipGap_cursor] at hreach
      exact s.cursor.skipGap_reaches.trans hreach
    rw [ih, moveTo_cursor hreach, skipGap_moveTo hreach,
      follow_moveTo hthere (Cursor.readWithin_reaches frames' c), Cursor.readWithin_eq frames s.cursor,
      ← skipGap_cursor, hcursor]
    rfl

theorem readExpression_eq (s : Source) : s.readExpression = s.follow s.cursor.readExpression :=
  readWithin_eq [] s

end Source

end FormScript
