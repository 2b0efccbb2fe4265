import FormScript.Proofs.Macro.Expansion
import FormScript.Proofs.Reading.Scan

/-!
# What reading gives

`Lexeme` lists the texts of atoms, one rule for each kind, with the atom that each stands for. An atom
that is read comes from a lexeme, the longest at its place (`readAtom_lexed`), and so does every atom of an
expression that is read: `Reads` packages the induction over the steps of the reader, for any property
that atoms have and that groups take over from their elements, together with the number of groups around
the expression (`Reads.scan`).
-/

namespace FormScript

/-- The text of an atom, from its first character to its last, and what it stands for. -/
inductive Lexeme : List Char → Sexp → Prop where
  | string {quote : Char} {body : List Char} : quote = '"' ∨ quote = '\'' →
      splitDelimited quote (body ++ [quote]) = some (body, []) →
      Lexeme (quote :: (body ++ [quote])) (.string (String.ofList body))
  | divide : Lexeme ['/'] (.symbol "/")
  | divideBy : Lexeme ['/', '='] (.symbol "/=")
  | regex {body flags : List Char} : opensRegex (body ++ '/' :: flags) = true →
      splitDelimited '/' (body ++ '/' :: flags) = some (body, flags) →
      (∀ c ∈ flags, isRegexFlag c = true) →
      Lexeme ('/' :: (body ++ '/' :: flags)) (.regex (String.ofList body) (String.ofList flags))
  | word {first : Char} {tail : List Char} {stop : Position} : first ≠ '/' →
      (∀ c ∈ first :: tail, endsWord c = false) →
      Lexeme (first :: tail) (wordValue (first :: tail) stop)

/-- The expression is an atom that some text stands for. -/
def Sexp.HasLexeme (a : Sexp) : Prop := ∃ cs, Lexeme cs a

/-- A word stands for a number or for the symbol of its name. -/
theorem wordValue_cases (word : List Char) (stop : Position) :
    (∃ x, wordValue word stop = .number x) ∨ wordValue word stop = .symbol (String.ofList word) := by
  unfold wordValue
  split
  · exact Or.inl ⟨_, rfl⟩
  · dsimp only
    split
    · exact Or.inl ⟨_, rfl⟩
    · split
      · exact Or.inl ⟨_, rfl⟩
      · exact Or.inr rfl

theorem Lexeme.not_group {cs : List Char} {a : Sexp} (h : Lexeme cs a) : a.elements? = none := by
  cases h with
  | string => rfl
  | divide => rfl
  | divideBy => rfl
  | regex => rfl
  | @word first tail stop =>
    rcases wordValue_cases (first :: tail) stop with ⟨x, hx⟩ | hx
    · rw [hx]
      rfl
    · rw [hx]
      rfl

/-- A symbol that is read holds nothing that would end a word. -/
theorem Lexeme.symbol_chars {cs : List Char} {a : Sexp} (h : Lexeme cs a) {name : String}
    (ha : a = .symbol name) : ∀ c ∈ name.toList, endsWord c = false := by
  cases h with
  | string => cases ha
  | divide =>
    cases ha
    simp only [← Bool.not_eq_true']
    exact List.all_eq_true.mp (by decide)
  | divideBy =>
    cases ha
    simp only [← Bool.not_eq_true']
    exact List.all_eq_true.mp (by decide)
  | regex => cases ha
  | @word first tail stop hslash hword =>
    rcases wordValue_cases (first :: tail) stop with ⟨x, hx⟩ | hx
    · rw [hx] at ha
      cases ha
    · rw [hx] at ha
      cases ha
      rw [String.toList_ofList]
      exact hword

theorem not_endsWord_cases {c : Char} (h : endsWord c = false) :
    Bracket.ofOpening? c = none ∧ Bracket.ofClosing? c = none ∧ isBlank c = false
      ∧ c ≠ '"' ∧ c ≠ '\'' ∧ c ≠ ';' := by
  simp only [endsWord, Bool.or_eq_false_iff, decide_eq_false_iff_not, Option.isSome_eq_false_iff,
    Option.isNone_iff_eq_none] at h
  obtain ⟨⟨⟨⟨⟨hblank, hdouble⟩, hsingle⟩, hsemicolon⟩, hopen⟩, hclose⟩ := h
  exact ⟨hopen, hclose, hblank, hdouble, hsingle, hsemicolon⟩

/-- A lexeme begins with a character of an atom. -/
theorem Lexeme.first_char {cs : List Char} {a : Sexp} (h : Lexeme cs a) :
    ∃ first tail, cs = first :: tail ∧ Bracket.ofOpening? first = none
      ∧ Bracket.ofClosing? first = none ∧ ∀ more, beginsGap (first :: more) = false := by
  have hslash : ∀ more, beginsGap ('/' :: more) = false :=
    fun _ => show (isBlank '/' || decide ('/' = ';')) = false by decide
  cases h with
  | @string quote body hquote _ =>
    have hfirst : Bracket.ofOpening? quote = none ∧ Bracket.ofClosing? quote = none
        ∧ (isBlank quote || decide (quote = ';')) = false := by
      rcases hquote with rfl | rfl <;> decide
    exact ⟨quote, _, rfl, hfirst.1, hfirst.2.1, fun _ => hfirst.2.2⟩
  | divide => exact ⟨'/', _, rfl, by decide, by decide, hslash⟩
  | divideBy => exact ⟨'/', _, rfl, by decide, by decide, hslash⟩
  | regex => exact ⟨'/', _, rfl, by decide, by decide, hslash⟩
  | @word first tail _ _ hword =>
    obtain ⟨hopen, hclose, hblank, _, _, hsemicolon⟩ :=
      not_endsWord_cases (hword first List.mem_cons_self)
    exact ⟨first, tail, rfl, hopen, hclose, fun _ => by simp [beginsGap, hblank, hsemicolon]⟩

/-- The text does not stand for the place it is read at. -/
def Unmarked (cs : List Char) : Prop := cs ≠ lineMarker.toList ∧ cs ≠ columnMarker.toList

/-! ## The longest lexeme -/

/-- No lexeme that begins with `cs` goes on into `rest`. -/
def Longest (cs rest : List Char) : Prop := ∀ x b, x <+: rest → Lexeme (cs ++ x) b → x = []

theorem endsWord_of_quote {quote : Char} (h : quote = '"' ∨ quote = '\'') : endsWord quote = true := by
  rcases h with rfl | rfl <;> decide

/-- What begins with a quote is a string. -/
theorem Lexeme.delimited {quote : Char} (hquote : quote = '"' ∨ quote = '\'') {cs : List Char} {a : Sexp}
    (h : Lexeme (quote :: cs) a) : ∃ body, splitDelimited quote cs = some (body, []) := by
  have hends := endsWord_of_quote hquote
  cases h with
  | string _ hsplit => exact ⟨_, hsplit⟩
  | divide => exact absurd hends (by decide)
  | divideBy => exact absurd hends (by decide)
  | regex => exact absurd hends (by decide)
  | word _ hword => exact absurd hends (by simp [hword quote List.mem_cons_self])

/-- What begins with a slash is a division sign or a regular expression. -/
theorem Lexeme.slashed {cs : List Char} {a : Sexp} (h : Lexeme ('/' :: cs) a) :
    cs = [] ∨ cs = ['='] ∨ opensRegex cs = true
      ∧ ∃ body flags, splitDelimited '/' cs = some (body, flags) ∧ ∀ c ∈ flags, isRegexFlag c = true := by
  cases h with
  | string hquote =>
    have hends := endsWord_of_quote hquote
    exact absurd hends (by decide)
  | divide => exact Or.inl rfl
  | divideBy => exact Or.inr (Or.inl rfl)
  | regex hopens hsplit hflags => exact Or.inr (Or.inr ⟨hopens, _, _, hsplit, hflags⟩)
  | word hslash => exact absurd rfl hslash

/-- What begins otherwise is a word. -/
theorem Lexeme.worded {first : Char} (hfirst : endsWord first = false) (hslash : first ≠ '/')
    {cs : List Char} {a : Sexp} (h : Lexeme (first :: cs) a) : ∀ c ∈ first :: cs, endsWord c = false := by
  cases h with
  | string hquote =>
    have hends := endsWord_of_quote hquote
    exact absurd hends (by simp [hfirst])
  | divide => exact absurd rfl hslash
  | divideBy => exact absurd rfl hslash
  | regex => exact absurd rfl hslash
  | word _ hword => exact hword

theorem head?_of_isPrefix {x rest : List Char} {c : Char} (h : c :: x <+: rest) : rest.head? = some c := by
  obtain ⟨more, rfl⟩ := h
  rfl

/-- A text of which no nonempty beginning of `rest` makes a longer lexeme. -/
theorem longest_of_head {cs rest : List Char}
    (h : ∀ c x b, rest.head? = some c → ¬Lexeme (cs ++ c :: x) b) : Longest cs rest := by
  intro x b hx hlexeme
  cases x with
  | nil => rfl
  | cons c x => exact absurd hlexeme (h c x b (head?_of_isPrefix hx))

theorem longest_string {quote : Char} (hquote : quote = '"' ∨ quote = '\'') {body : List Char}
    (hsplit : splitDelimited quote (body ++ [quote]) = some (body, [])) (rest : List Char) :
    Longest (quote :: (body ++ [quote])) rest := by
  have hne : quote ≠ '\\' := by
    rcases hquote with rfl | rfl <;> decide
  intro x b _ hlexeme
  rw [List.cons_append] at hlexeme
  obtain ⟨body', hsplit'⟩ := hlexeme.delimited hquote
  -- the first quote that nothing protects is the one in front of `x`
  rw [List.append_assoc, List.singleton_append, splitDelimited_swap hne hsplit x] at hsplit'
  exact (Prod.mk.inj (Option.some.inj hsplit')).2

theorem longest_regex {body flags rest : List Char}
    (hsplit : splitDelimited '/' (body ++ '/' :: flags) = some (body, flags))
    (hrest : ∀ c, rest.head? = some c → isRegexFlag c = false) :
    Longest ('/' :: (body ++ '/' :: flags)) rest := by
  apply longest_of_head
  intro c x b hc hlexeme
  rw [List.cons_append] at hlexeme
  have hslash : '/' ∈ body ++ '/' :: flags ++ c :: x := by simp
  rcases hlexeme.slashed with hnil | hequals | ⟨_, body', flags', hsplit', hflags⟩
  · exact absurd (hnil ▸ hslash) List.not_mem_nil
  · exact absurd (hequals ▸ hslash) (by decide)
  · rw [List.append_assoc, List.cons_append, splitDelimited_swap (by decide) hsplit] at hsplit'
    obtain ⟨_, rfl⟩ := Prod.mk.inj (Option.some.inj hsplit')
    have hflag := hflags c (by simp)
    rw [hrest c hc] at hflag
    cases hflag

theorem longest_divide {rest : List Char} (halone : standsAlone rest = true) : Longest ['/'] rest := by
  apply longest_of_head
  intro c x b hc hlexeme
  obtain ⟨more, rfl⟩ := List.head?_eq_some_iff.mp hc
  have hends : endsSlash c = true := halone
  rcases hlexeme.slashed with hnil | hequals | ⟨hopens, _⟩
  · cases hnil
  · cases hequals
    exact absurd hends (by decide)
  · cases x with
    | nil => simp [opensRegex, hends] at hopens
    | cons d x => simp [opensRegex, hends] at hopens

theorem longest_divideBy {rest : List Char} (halone : standsAlone rest = true) :
    Longest ['/', '='] rest := by
  apply longest_of_head
  intro c x b hc hlexeme
  obtain ⟨more, rfl⟩ := List.head?_eq_some_iff.mp hc
  have hends : endsSlash c = true := halone
  rcases hlexeme.slashed with hnil | hequals | ⟨hopens, _⟩
  · cases hnil
  · cases hequals
  · simp [opensRegex, hends] at hopens

theorem longest_word {first : Char} {tail rest : List Char} (hslash : first ≠ '/')
    (hfirst : endsWord first = false) (hrest : ∀ c, rest.head? = some c → endsWord c = true) :
    Longest (first :: tail) rest := by
  apply longest_of_head
  intro c x b hc hlexeme
  have hword := hlexeme.worded hfirst hslash c (by simp)
  rw [hrest c hc] at hword
  cases hword

/-! ## Atoms -/

/-- The text `cs` begins with a lexeme of `a`, the longest that stands there, and `rest` is left. -/
def Lexed (cs : List Char) (a : Sexp) (rest : List Char) : Prop :=
  ∃ lexeme, cs = lexeme ++ rest ∧ Lexeme lexeme a ∧ Longest lexeme rest

namespace Cursor

theorem readString_lexed {quote : Char} (hquote : quote = '"' ∨ quote = '\'') {tail : List Char}
    {p : Position} {a : Sexp} {stop : Cursor}
    (h : readString quote ⟨tail, p⟩ = (.ok a, stop)) : Lexed (quote :: tail) a stop.rest := by
  have hne : quote ≠ '\\' := by
    rcases hquote with rfl | rfl <;> decide
  unfold readString at h
  cases hsplit : splitDelimited quote tail with
  | none => simp [hsplit] at h
  | some result =>
    obtain ⟨body, rest⟩ := result
    have hown := splitDelimited_swap hne hsplit []
    simp only [hsplit, past, Prod.mk.injEq, Except.ok.injEq] at h
    rw [← h.1, ← h.2, splitDelimited_eq_append hsplit]
    exact ⟨_, rfl, Lexeme.string hquote hown, longest_string hquote hown rest⟩

theorem readRegex_lexed {tail : List Char} (hopens : opensRegex tail = true) {p : Position}
    {a : Sexp} {stop : Cursor} (h : readRegex ⟨tail, p⟩ = (.ok a, stop)) :
    Lexed ('/' :: tail) a stop.rest := by
  unfold readRegex at h
  cases hsplit : splitDelimited '/' tail with
  | none => simp [hsplit] at h
  | some result =>
    obtain ⟨body, rest⟩ := result
    simp only [hsplit, past, span, Prod.mk.injEq, Except.ok.injEq] at h
    have hflags : ∀ c ∈ rest.takeWhile isRegexFlag, isRegexFlag c = true :=
      fun c hc => List.all_eq_true.mp List.all_takeWhile c hc
    have hown := splitDelimited_swap (by decide) hsplit (rest.takeWhile isRegexFlag)
    have htail := splitDelimited_eq_append hsplit
    -- what opens the regular expression lies in front of its flags
    have hsame : opensRegex (body ++ '/' :: rest.takeWhile isRegexFlag) = true := by
      have hmem : '/' ∈ body ++ ['/'] := by simp
      rw [htail, opensRegex_swap hmem rest (rest.takeWhile isRegexFlag)] at hopens
      simpa using hopens
    have hcut : tail = body ++ '/' :: rest.takeWhile isRegexFlag ++ rest.dropWhile isRegexFlag := by
      rw [List.append_assoc, List.cons_append, List.takeWhile_append_dropWhile, htail]
      simp
    rw [← h.1, ← h.2, hcut]
    exact ⟨_, rfl, Lexeme.regex hsame hown hflags, longest_regex hown fun c hc => head_dropWhile hc⟩

theorem readSlash_lexed {tail : List Char} {p : Position} {a : Sexp} {stop : Cursor}
    (h : readSlash ⟨tail, p⟩ = (.ok a, stop)) : Lexed ('/' :: tail) a stop.rest := by
  rcases slash_cases tail with halone | ⟨rest, rfl, halone⟩ | hregex
  · rw [readSlash_of_standsAlone halone] at h
    simp only [Prod.mk.injEq, Except.ok.injEq] at h
    rw [← h.1, ← h.2]
    exact ⟨_, rfl, Lexeme.divide, longest_divide halone⟩
  · rw [readSlash_of_equals rfl halone] at h
    simp only [Prod.mk.injEq, Except.ok.injEq] at h
    rw [← h.1, ← h.2]
    exact ⟨_, rfl, Lexeme.divideBy, longest_divideBy halone⟩
  · rw [readSlash_of_opensRegex hregex] at h
    exact readRegex_lexed hregex h

/-- A word runs up to the next character that ends one. -/
theorem readWord_eq (first : Char) (tail : List Char) (p : Position) :
    ∃ x rest, tail = x ++ rest ∧ (∀ c ∈ x, endsWord c = false)
      ∧ (∀ c, rest.head? = some c → endsWord c = true)
      ∧ readWord first ⟨tail, p⟩ = (.ok (wordValue (first :: x) (p.advance x)), ⟨rest, p.advance x⟩) := by
  refine ⟨tail.takeWhile fun ch => !endsWord ch, tail.dropWhile fun ch => !endsWord ch,
    List.takeWhile_append_dropWhile.symm, ?_, ?_, rfl⟩
  · intro c hc
    have hkeep := List.all_eq_true.mp List.all_takeWhile c hc
    simpa using hkeep
  · intro c hc
    have hstop := head_dropWhile hc
    simpa using hstop

/-- **What is read as an atom has a lexeme**, the longest at its place. -/
theorem readAtom_lexed {first : Char} {tail : List Char} {p : Position} {a : Sexp} {stop : Cursor}
    (hopen : Bracket.ofOpening? first = none) (hclose : Bracket.ofClosing? first = none)
    (hgap : beginsGap (first :: tail) = false)
    (h : readAtom first ⟨tail, p⟩ = (.ok a, stop)) : Lexed (first :: tail) a stop.rest := by
  unfold readAtom at h
  by_cases hquote : first = '"' ∨ first = '\''
  · rw [if_pos hquote] at h
    exact readString_lexed hquote h
  · rw [if_neg hquote] at h
    by_cases hslash : first = '/'
    · rw [if_pos hslash] at h
      subst hslash
      exact readSlash_lexed h
    · rw [if_neg hslash] at h
      obtain ⟨x, rest, rfl, hx, hrest, hword⟩ := readWord_eq first tail p
      rw [hword] at h
      have hfirst : endsWord first = false := by
        simp only [beginsGap, Bool.or_eq_false_iff, decide_eq_false_iff_not] at hgap
        simp only [not_or] at hquote
        simp [endsWord, hgap.1, hgap.2, hquote.1, hquote.2, hopen, hclose]
      simp only [Prod.mk.injEq, Except.ok.injEq] at h
      rw [← h.1, ← h.2]
      exact ⟨_, rfl, Lexeme.word hslash (List.forall_mem_cons.mpr ⟨hfirst, hx⟩),
        longest_word hslash hfirst hrest⟩

end Cursor

/-! ## Steps, runs and scans -/

/-- `p n e` may be said of every expression `e` that is read inside `n` groups. -/
structure Reads (p : Nat → Sexp → Prop) : Prop where
  atom : ∀ n a, n ≤ maxNesting → a.HasLexeme → p n a
  group : ∀ n b items, n < maxNesting → (∀ e ∈ items, p (n + 1) e) → p n (.group b items)

namespace Reads

variable {p : Nat → Sexp → Prop}

/-- The property holds of everything read so far into the open groups. -/
def Holds (p : Nat → Sexp → Prop) : List Frame → Prop
  | [] => True
  | f :: outer => outer.length < maxNesting ∧ (∀ e ∈ f.items, p (outer.length + 1) e) ∧ Holds p outer

/-- The property holds of what a step gives. -/
def StepHolds (p : Nat → Sexp → Prop) : ReadStep Cursor → Prop
  | .done (.ok (some e)) _ => p 0 e
  | .done _ _ => True
  | .more frames _ => Holds p frames

theorem Holds.length_le {frames : List Frame} (h : Holds p frames) : frames.length ≤ maxNesting := by
  cases frames with
  | nil => exact Nat.zero_le _
  | cons f outer => exact h.1

theorem deliver {e : Sexp} {frames : List Frame} (hframes : Holds p frames) (he : p frames.length e)
    (c : Cursor) : StepHolds p (ReadStep.deliver e frames c) := by
  cases frames with
  | nil => exact he
  | cons f outer =>
    obtain ⟨hroom, hitems, houter⟩ := hframes
    exact ⟨hroom, List.forall_mem_cons.mpr ⟨he, hitems⟩, houter⟩

/-- One step keeps the property. -/
theorem step (hp : Reads p) {frames : List Frame} {c : Cursor} (hgap : beginsGap c.rest = false)
    (hframes : Holds p frames) : StepHolds p (Cursor.readStep frames c) := by
  have hstep := Cursor.readStep_stepsTo frames c
  generalize Cursor.readStep frames c = s at hstep
  cases hstep with
  | atEnd =>
    cases frames with
    | nil => exact trivial
    | cons f outer => exact trivial
  | opening hopen hdepth => exact ⟨hdepth, by simp, hframes⟩
  | tooDeep => exact trivial
  | closing hopen hclose =>
    obtain ⟨hroom, hitems, houter⟩ := hframes
    refine deliver houter (hp.group _ _ _ hroom ?_) _
    intro e he
    exact hitems e (List.mem_reverse.mp he)
  | unexpected => exact trivial
  | atom hopen hclose hatom =>
    obtain ⟨lexeme, _, hlexeme, _⟩ := Cursor.readAtom_lexed hopen hclose hgap hatom
    exact deliver hframes (hp.atom _ _ hframes.length_le ⟨lexeme, hlexeme⟩) _
  | cutOff => exact trivial

/-- A run keeps the property, from the groups that are open to the expression it gives. -/
theorem run (hp : Reads p) {frames : List Frame} {c stop : Cursor} {e : Sexp}
    (hframes : Holds p frames) (h : c.readWithin frames = (.ok (some e), stop)) : p 0 e := by
  induction frames, c using Cursor.readWithin.induct with
  | case1 frames c outcome stop' hstep =>
    have hholds := hp.step (c.not_begins_skipGap) hframes
    rw [Cursor.readWithin_eq, hstep] at h
    rw [hstep] at hholds
    cases h
    exact hholds
  | case2 frames c frames' next hstep ih =>
    have hholds := hp.step (c.not_begins_skipGap) hframes
    rw [Cursor.readWithin_eq, hstep] at h
    rw [hstep] at hholds
    exact ih hholds h

/-- **Every expression that a scan gives has the property.** -/
theorem scan (hp : Reads p) (c : Cursor) : ∀ e ∈ c.scan.expressions, p 0 e := by
  induction c using Cursor.scan.induct with
  | case1 c fault stop hrun =>
    rw [Cursor.scan_of_error hrun]
    simp [Scan.expressions]
  | case2 c stop hrun =>
    rw [Cursor.scan_of_none hrun]
    simp [Scan.expressions]
  | case3 c e stop hrun ih =>
    rw [Cursor.scan_of_some hrun]
    have houtside : Holds p [] := trivial
    exact List.forall_mem_cons.mpr ⟨hp.run houtside hrun, ih⟩

/-- Every expression read from a text has the property. -/
theorem readAll (hp : Reads p) (text : String) :
    ∀ e ∈ (Reader.ofText text).readAll.expressions, p 0 e := by
  obtain ⟨hitems, _⟩ := Reader.readAll_ofText text
  rw [Program.expressions, hitems]
  exact hp.scan _

/-- A property of the atoms that reading gives is a property of all atoms of what is read. -/
theorem every {q : Sexp → Prop} (hq : ∀ a, a.HasLexeme → q a) : Reads fun _ e => e.Every q where
  atom := by
    intro n a _ ha
    obtain ⟨cs, hcs⟩ := ha
    exact (Sexp.every_atom hcs.not_group).mpr (hq a ⟨cs, hcs⟩)
  group := fun _ _ _ _ hitems => Sexp.every_group.mpr hitems

end Reads

end FormScript
