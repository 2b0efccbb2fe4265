import Mathlib.Data.List.Forall2
import FormScript.Command.Tokens
import FormScript.Proofs.Number.RoundTrip
import FormScript.Proofs.Reading.Atoms
import FormScript.Proofs.Reading.Rendering

/-!
# Printing what was read

Expressions that were read can be printed, one on a line, and read again. What is read again differs
from what was read first in two ways only (`Sexp.mirrored`): a string has the body of its literal for
its content, and a number beyond all finite ones has become a symbol. From then on nothing changes any
more: the lines are printed as they were read (`mirror_fixed`).

Every atom that was read is printed as a lexeme (`Lexeme.prints`). A lexeme is a spelling in the sense of
the renderings (`Lexeme.spelling`), so that the lines are a rendering of a forest, and reading a
rendering is already understood.
-/

namespace FormScript

/-! ## Bodies of literals -/

/-- A text in which quotes and line ends are protected, and in which no backslash stands last. -/
inductive Protected : List Char → Prop where
  | nil : Protected []
  | pair {c : Char} {cs : List Char} : Protected cs → Protected ('\\' :: c :: cs)
  | bare {c : Char} {cs : List Char} : c ≠ '\\' → Literal.escapeBare c = [c] → Protected cs →
      Protected (c :: cs)

namespace Protected

theorem append {cs ds : List Char} (hcs : Protected cs) (hds : Protected ds) :
    Protected (cs ++ ds) := by
  induction hcs with
  | nil => exact hds
  | pair _ ih => exact .pair ih
  | bare hc hbare _ ih => exact .bare hc hbare ih

theorem of_bare {cs : List Char} (h : ∀ c ∈ cs, c ≠ '\\' ∧ Literal.escapeBare c = [c]) :
    Protected cs := by
  induction cs with
  | nil => exact .nil
  | cons c cs ih =>
    obtain ⟨⟨hc, hbare⟩, hcs⟩ := List.forall_mem_cons.mp h
    exact .bare hc hbare (ih hcs)

theorem escapeBare {c : Char} (hc : c ≠ '\\') : Protected (Literal.escapeBare c) := by
  by_cases hbare : Literal.escapeBare c = [c]
  · rw [hbare]
    exact .bare hc hbare .nil
  · unfold Literal.escapeBare at hbare ⊢
    split_ifs at hbare ⊢
    · exact .pair .nil
    · exact .pair .nil
    · exact .pair .nil
    · exact .pair (of_bare (by simp [Literal.escapeBare]))
    · exact .pair (of_bare (by simp [Literal.escapeBare]))
    · exact absurd rfl hbare

/-- The body of a literal is protected, -/
theorem body (cs : List Char) : Protected (Literal.body cs) := by
  fun_induction Literal.body cs with
  | case1 => exact .nil
  | case2 => exact .pair .nil
  | case3 c hc => exact escapeBare hc
  | case4 d cs ih => exact .pair ih
  | case5 c d cs hc ih => exact (escapeBare hc).append ih

/-- and a protected text is its own body. -/
theorem body_eq {cs : List Char} (h : Protected cs) : Literal.body cs = cs := by
  induction h with
  | nil => rfl
  | pair _ ih => simp [Literal.body, ih]
  | @bare c cs hc hbare _ ih =>
    cases cs with
    | nil => simp [Literal.body, hc, hbare]
    | cons d cs => simp [Literal.body, hc, hbare, ih]

/-- Up to the quote behind it, a protected text has no end. -/
theorem splitDelimited_eq {cs : List Char} (h : Protected cs) :
    splitDelimited '"' (cs ++ ['"']) = some (cs, []) := by
  induction h with
  | nil => exact splitDelimited_delimiter (by decide) []
  | pair _ ih => simp [splitDelimited, ih]
  | @bare c cs hc hbare _ ih =>
    have hquote : c ≠ '"' := by
      rintro rfl
      exact absurd hbare (by decide)
    rw [List.cons_append, splitDelimited_cons hc hquote (by simp), ih]
    rfl

end Protected

/-! ## Lexemes are read as their atoms -/

/-- The value of a word that is not a marker does not depend on where the word stands. -/
theorem Unmarked.wordValue_eq {word : List Char} (h : Unmarked word) (stop stop' : Position) :
    wordValue word stop = wordValue word stop' := by
  have hline : String.ofList word ≠ lineMarker := by
    intro hmarker
    exact h.1 (by rw [← hmarker, String.toList_ofList])
  have hcolumn : String.ofList word ≠ columnMarker := by
    intro hmarker
    exact h.2 (by rw [← hmarker, String.toList_ofList])
  unfold wordValue
  simp only [if_neg hline, if_neg hcolumn]

theorem Cursor.span_all {keep : Char → Bool} {cs : List Char} (h : ∀ c ∈ cs, keep c = true)
    (p : Position) : Cursor.span keep ⟨cs, p⟩ = (cs, ⟨[], p.advance cs⟩) := by
  have htake : cs.takeWhile keep = cs := List.takeWhile_eq_self_iff.mpr h
  have hdrop : cs.dropWhile keep = [] := List.dropWhile_eq_nil_iff.mpr h
  simp only [Cursor.span, Cursor.past, htake, hdrop]

/-- A lexeme begins like an atom, and the atom takes it all. -/
theorem Lexeme.readAtom_eq {cs : List Char} {a : Sexp} (h : Lexeme cs a) (hcs : Unmarked cs) :
    ∃ first tail, cs = first :: tail ∧ Bracket.ofOpening? first = none
      ∧ Bracket.ofClosing? first = none ∧ beginsGap (first :: tail) = false
      ∧ ∀ p, ∃ stop : Cursor, Cursor.readAtom first ⟨tail, p⟩ = (.ok a, stop) ∧ stop.rest = [] := by
  have hslash : ∀ c : Cursor, c.readAtom '/' = c.readSlash := fun _ => rfl
  obtain ⟨first, tail, rfl, hopen, hclose, hgap⟩ := h.first_char
  refine ⟨first, tail, rfl, hopen, hclose, hgap tail, fun p => ?_⟩
  cases h with
  | string hquote hsplit =>
    simp only [Cursor.readAtom, if_pos hquote, Cursor.readString, hsplit]
    exact ⟨_, rfl, rfl⟩
  | divide =>
    rw [hslash, Cursor.readSlash_of_standsAlone rfl]
    exact ⟨_, rfl, rfl⟩
  | divideBy =>
    rw [hslash, Cursor.readSlash_of_equals rfl rfl]
    exact ⟨_, rfl, rfl⟩
  | regex hopens hsplit hflags =>
    rw [hslash, Cursor.readSlash_of_opensRegex hopens]
    simp only [Cursor.readRegex, hsplit, Cursor.past, Cursor.span_all hflags]
    exact ⟨_, rfl, rfl⟩
  | @word _ _ stop hfirst hword =>
    obtain ⟨_, _, _, hdouble, hsingle, _⟩ := not_endsWord_cases (hword first List.mem_cons_self)
    have hkeep : ∀ c ∈ tail, (!endsWord c) = true := by
      intro c hc
      rw [hword c (List.mem_cons_of_mem _ hc), Bool.not_false]
    have hquote : ¬ (first = '"' ∨ first = '\'') := not_or.mpr ⟨hdouble, hsingle⟩
    simp only [Cursor.readAtom, if_neg hquote, if_neg hfirst, Cursor.readWord, Cursor.span_all hkeep]
    exact ⟨_, by rw [hcs.wordValue_eq stop], rfl⟩

/-- A lexeme is scanned as its atom, from its first character to its last. -/
theorem Lexeme.scan_eq {cs : List Char} {a : Sexp} (h : Lexeme cs a) (hcs : Unmarked cs) :
    (Cursor.ofText cs).scan = ⟨[⟨a, .start, Position.start.advance cs⟩], none,
      ⟨[], Position.start.advance cs⟩⟩ := by
  obtain ⟨first, tail, rfl, hopen, hclose, hgap, hread⟩ := h.readAtom_eq hcs
  obtain ⟨stop, hatom, hrest⟩ := hread (Position.start.step first)
  have hskip : (Cursor.ofText (first :: tail)).skipGap = Cursor.ofText (first :: tail) :=
    Cursor.skipGap_of_not_begins hgap
  have hrun : (Cursor.ofText (first :: tail)).readWithin [] = (.ok (some a), stop) := by
    have hstep : Cursor.StepsTo [] (Cursor.ofText (first :: tail)) (ReadStep.deliver a [] stop) :=
      Cursor.StepsTo.atom hopen hclose hatom
    rw [Cursor.readWithin_eq, hskip, hstep.readStep_eq]
    rfl
  have hstop : stop = ⟨[], Position.start.advance (first :: tail)⟩ := by
    have hreach := Cursor.readWithin_reaches [] (Cursor.ofText (first :: tail))
    rw [hrun] at hreach
    obtain ⟨taken, htaken, hposition⟩ := hreach
    rw [hrest, List.append_nil] at htaken
    rw [← show first :: tail = taken from htaken] at hposition
    exact (Cursor.mk.injEq _ _ _ _).mpr ⟨hrest, hposition⟩
  subst hstop
  rw [Cursor.scan_of_some hrun, Cursor.scan_of_none (Cursor.readWithin_nil_of_skipGap rfl), hskip]
  rfl

/-- **A lexeme is the spelling of its atom.** -/
theorem Lexeme.spelling {cs : List Char} {a : Sexp} (h : Lexeme cs a) (hcs : Unmarked cs) :
    ∃ s : Spelling, s.text.toList = cs ∧ s.item.expression = a := by
  obtain ⟨hitems, _, herror⟩ := Reader.readAll_ofText (String.ofList cs)
  rw [String.toList_ofList, h.scan_eq hcs] at hitems herror
  refine ⟨⟨String.ofList cs, ⟨a, .start, Position.start.advance cs⟩, hitems, herror, rfl, ?_,
    h.not_group, ?_, ?_⟩, String.toList_ofList, rfl⟩
  · rw [Position.advance_offset, String.length_ofList]
    exact Nat.zero_add _
  · intro hline
    exact hcs.1 (by rw [← hline, String.toList_ofList])
  · intro hcolumn
    exact hcs.2 (by rw [← hcolumn, String.toList_ofList])

/-! ## Atoms printed and read again -/

/-- What a number is read as when it has been printed: beyond all finite numbers, a symbol. -/
def Number.mirrored : Number → Sexp
  | .infinite false => .symbol "Infinity"
  | .infinite true => .symbol "-Infinity"
  | x => .number x

namespace Sexp

mutual

/-- What an expression is read as when it has been printed: the content of a string is the body of its
    literal. -/
def mirrored : Sexp → Sexp
  | .number x => x.mirrored
  | .symbol name => .symbol name
  | .string content => .string (String.ofList (Literal.body content.toList))
  | .regex pattern flags => .regex pattern flags
  | .group bracket items => .group bracket (mirroredAll items)

/-- Each of the expressions as it is read when it has been printed. -/
def mirroredAll : List Sexp → List Sexp
  | [] => []
  | e :: es => mirrored e :: mirroredAll es

end

theorem texts_eq_map (es : List Sexp) : texts es = es.map text := by
  induction es with
  | nil => rw [texts, List.map_nil]
  | cons e es ih => rw [texts, ih, List.map_cons]

theorem mirroredAll_eq_map (es : List Sexp) : mirroredAll es = es.map mirrored := by
  induction es with
  | nil => rw [mirroredAll, List.map_nil]
  | cons e es ih => rw [mirroredAll, ih, List.map_cons]

end Sexp

theorem not_endsWord_of_isDigit {c : Char} (h : c.isDigit = true) : endsWord c = false := by
  have hne : ∀ d : Char, d.isDigit = false → c ≠ d := fun _ hd => ne_of_class h hd
  have hblank : isBlank c = false := by
    simp only [isBlank, Bool.or_eq_false_iff, decide_eq_false_iff_not]
    exact ⟨⟨⟨⟨⟨⟨⟨hne _ rfl, hne _ rfl⟩, hne _ rfl⟩, hne _ rfl⟩, hne _ rfl⟩, hne _ rfl⟩, hne _ rfl⟩,
      hne _ rfl⟩
  simp [endsWord, hblank, Bracket.ofOpening?, Bracket.ofClosing?, hne '"' rfl, hne '\'' rfl,
    hne ';' rfl, hne '(' rfl, hne '[' rfl, hne '\x7b' rfl, hne ')' rfl, hne ']' rfl, hne '\x7d' rfl]

/-- Both markers begin with an underscore. -/
theorem unmarked_of_head {cs : List Char} (h : cs.head? ≠ some '_') : Unmarked cs := by
  constructor
  · rintro rfl
    exact h rfl
  · rintro rfl
    exact h rfl

/-- The atom `a` is printed as a lexeme of `b`, which is printed in the same way. -/
structure Prints (a b : Sexp) : Prop where
  lexeme : Lexeme a.text.toList b
  unmarked : Unmarked a.text.toList
  text_eq : b.text = a.text
  same : b.equals a.mirrored = true

theorem prints_string (content : String) :
    Prints (.string content) (.string (String.ofList (Literal.body content.toList))) := by
  have hbody := Protected.body content.toList
  have htext : (Sexp.string content).text.toList = '"' :: (Literal.body content.toList ++ ['"']) := by
    rw [Sexp.text, Literal.quote, String.toList_ofList]
  refine ⟨?_, ?_, ?_, ?_⟩
  · rw [htext]
    exact .string (.inl rfl) hbody.splitDelimited_eq
  · rw [htext]
    exact unmarked_of_head (by simp)
  · rw [Sexp.text, Sexp.text, Literal.quote, Literal.quote, String.toList_ofList, hbody.body_eq]
  · simp [Sexp.mirrored, Sexp.equals]

/-- A numeral without exponent is a lexeme. -/
theorem Numeral.Positional.lexeme {n : Numeral} (hn : n.Positional) :
    Lexeme n.word (.number n.value) ∧ Unmarked n.word := by
  have hnot : ∀ c ∈ n.word, endsWord c = false ∧ c ≠ '/' ∧ c ≠ '_' := by
    intro c hc
    rcases hn.digital.mem_word hc with rfl | rfl | hdigit
    · decide
    · decide
    · exact ⟨not_endsWord_of_isDigit hdigit, ne_of_class hdigit rfl, ne_of_class hdigit rfl⟩
  have hne : n.word ≠ [] := by
    unfold Numeral.word
    split
    · simp
    · simp [hn.whole_ne]
  have hvalue : wordValue n.word .start = .number n.value := by
    rw [wordValue, hn.ofWord?_word]
  obtain ⟨first, tail, hword⟩ := List.exists_cons_of_ne_nil hne
  rw [← hvalue]
  rw [hword] at hnot ⊢
  refine ⟨.word (hnot first List.mem_cons_self).2.1 fun c hc => (hnot c hc).1, ?_⟩
  apply unmarked_of_head
  intro hhead
  exact (hnot first List.mem_cons_self).2.2 (Option.some.inj hhead)

theorem Number.equals_self {x : Number} (h : x ≠ .nan) : x.equals x = true := by
  cases x with
  | nan => exact absurd rfl h
  | infinite negative => simp [Number.equals, Number.compareBy, Number.place?]
  | finite negative rank => simp [Number.equals, Number.compareBy, Number.place?]

/-- The lexeme of a number beyond all finite ones is a word that is no numeral. -/
theorem prints_infinite (negative : Bool) :
    Prints (.number (.infinite negative)) (Number.infinite negative).mirrored := by
  have hlexeme {first : Char} {tail : List Char} (hfirst : first ≠ '/')
      (hword : (first :: tail).all (fun c => !endsWord c) = true) :
      Lexeme (first :: tail) (wordValue (first :: tail) .start) := by
    refine .word hfirst fun c hc => ?_
    simpa using List.all_eq_true.mp hword c hc
  cases negative with
  | true =>
    have hword : Lexeme "-Infinity".toList (wordValue "-Infinity".toList .start) :=
      hlexeme (by decide) (by decide)
    exact ⟨hword, unmarked_of_head (by decide), rfl, rfl⟩
  | false =>
    have hword : Lexeme "Infinity".toList (wordValue "Infinity".toList .start) :=
      hlexeme (by decide) (by decide)
    exact ⟨hword, unmarked_of_head (by decide), rfl, rfl⟩

theorem prints_zero (negative : Bool) {rank : Fin Number.infinityRank} (hzero : rank.val = 0) :
    Prints (.number (.finite negative rank)) (.number (.zero false)) := by
  have hn : (⟨false, ['0'], none, none⟩ : Numeral).Positional :=
    ⟨by simp, by simp, by simp, rfl⟩
  have htext : (Sexp.number (.finite negative rank)).text = "0" := by
    rw [Sexp.text, Number.text, if_pos hzero]
  have hplace : (Number.finite negative rank).place? = some 0 := by
    simp [Number.place?, hzero]
  refine ⟨?_, ?_, ?_, ?_⟩
  · rw [htext]
    exact hn.lexeme.1
  · rw [htext]
    exact hn.lexeme.2
  · rw [htext]
    rfl
  · rw [Sexp.mirrored]
    simp only [Number.mirrored, Sexp.equals, Number.equals, Number.compareBy, hplace]
    rfl

theorem prints_finite (negative : Bool) {rank : Fin Number.infinityRank} (hrank : 0 < rank.val) :
    Prints (.number (.finite negative rank)) (.number (.finite negative rank)) := by
  obtain ⟨n, hn, _, hword, hvalue⟩ := Number.text_numeral negative hrank
  obtain ⟨hlexeme, hunmarked⟩ := hn.lexeme
  have htext : (Sexp.number (.finite negative rank)).text.toList = n.word := by
    rw [Sexp.text, hword]
  rw [← htext, hvalue] at hlexeme
  rw [← htext] at hunmarked
  refine ⟨hlexeme, hunmarked, rfl, ?_⟩
  rw [Sexp.mirrored, Number.mirrored, Sexp.equals]
  · exact Number.equals_self (by simp)
  all_goals simp

theorem prints_number {x : Number} (h : x ≠ .nan) : ∃ b, Prints (.number x) b := by
  cases x with
  | nan => exact absurd rfl h
  | infinite negative => exact ⟨_, prints_infinite negative⟩
  | finite negative rank =>
    by_cases hzero : rank.val = 0
    · exact ⟨_, prints_zero negative hzero⟩
    · exact ⟨_, prints_finite negative (Nat.pos_of_ne_zero hzero)⟩

theorem Number.ofRatio_ne_nan (negative : Bool) (num den : Nat) : ofRatio negative num den ≠ .nan := by
  unfold ofRatio
  split
  · simp
  · simp

/-- No word stands for "not a number". -/
theorem wordValue_ne_nan {word : List Char} {stop : Position} {x : Number}
    (h : wordValue word stop = .number x) : x ≠ .nan := by
  have hnumeral : ∀ n : Numeral, n.value ≠ .nan := by
    intro n
    unfold Numeral.value Decimal.toNumber
    split_ifs
    · simp [Number.zero]
    · simp
    · exact Number.ofRatio_ne_nan _ _ _
    · exact Number.ofRatio_ne_nan _ _ _
  unfold wordValue at h
  split at h
  · rw [← Sexp.number.inj h]
    exact hnumeral _
  · dsimp only at h
    split_ifs at h
    · rw [← Sexp.number.inj h]
      exact Number.ofRatio_ne_nan _ _ _
    · rw [← Sexp.number.inj h]
      exact Number.ofRatio_ne_nan _ _ _

/-- A word that stands for a symbol is no marker. -/
theorem unmarked_of_symbol {word : List Char} {stop : Position} {name : String}
    (h : wordValue word stop = .symbol name) : Unmarked word := by
  constructor
  · rintro rfl
    rw [show wordValue lineMarker.toList stop = .number _ from rfl] at h
    cases h
  · rintro rfl
    rw [show wordValue columnMarker.toList stop = .number _ from rfl] at h
    cases h

/-- **An atom that was read is printed as a lexeme** of what it is mirrored to. -/
theorem Lexeme.prints {cs : List Char} {a : Sexp} (h : Lexeme cs a) : ∃ b, Prints a b := by
  cases h with
  | @string quote body hquote hsplit => exact ⟨_, prints_string _⟩
  | divide => exact ⟨_, .divide, unmarked_of_head (by decide), rfl, rfl⟩
  | divideBy => exact ⟨_, .divideBy, unmarked_of_head (by decide), rfl, rfl⟩
  | @regex body flags hopens hsplit hflags =>
    have htext : (Sexp.regex (String.ofList body) (String.ofList flags)).text.toList
        = '/' :: (body ++ '/' :: flags) := by
      simp [Sexp.text]
    refine ⟨.regex (String.ofList body) (String.ofList flags), ?_, ?_, rfl, ?_⟩
    · rw [htext]
      exact .regex hopens hsplit hflags
    · rw [htext]
      exact unmarked_of_head (by simp)
    · simp [Sexp.mirrored, Sexp.equals]
  | @word first tail stop hfirst hword =>
    rcases wordValue_cases (first :: tail) stop with ⟨x, hvalue⟩ | hvalue
    · rw [hvalue]
      exact prints_number (wordValue_ne_nan hvalue)
    · have htext : (Sexp.symbol (String.ofList (first :: tail))).text.toList = first :: tail := by
        rw [Sexp.text, String.toList_ofList]
      have hlexeme : Lexeme (first :: tail) (wordValue (first :: tail) stop) := .word hfirst hword
      rw [hvalue] at hlexeme ⊢
      refine ⟨.symbol (String.ofList (first :: tail)), ?_, ?_, rfl, ?_⟩
      · rw [htext]
        exact hlexeme
      · rw [htext]
        exact unmarked_of_symbol hvalue
      · simp [Sexp.mirrored, Sexp.equals]

/-! ## Expressions printed and read again -/

/-- The tree is written as the expression is printed; it stands for what the expression is mirrored to,
    and that is printed in the same way. -/
structure Mirrors (t : Tree) (e : Sexp) : Prop where
  written : t.Written e.text.toList
  text_eq : t.value.text = e.text
  same : t.value.equals e.mirrored = true

theorem mirrors_atom {a : Sexp} (h : a.HasLexeme) : ∃ t : Tree, t.depth = 0 ∧ Mirrors t a := by
  obtain ⟨cs, hcs⟩ := h
  obtain ⟨b, hprints⟩ := hcs.prints
  obtain ⟨s, htext, hitem⟩ := hprints.lexeme.spelling hprints.unmarked
  have hvalue : (Tree.atom s).value = b := by rw [Tree.value, hitem]
  refine ⟨.atom s, by rw [Tree.depth], ?_, ?_, ?_⟩
  · rw [Tree.Written, htext]
  · rw [hvalue, hprints.text_eq]
  · rw [hvalue]
    exact hprints.same

section Forests

variable {ts : List Tree} {es : List Sexp} (h : List.Forall₂ Mirrors ts es)

include h

theorem texts_of_mirrors : Sexp.texts (Tree.values ts) = Sexp.texts es := by
  induction h with
  | nil => rw [Tree.values]
  | cons hmirrors _ ih => rw [Tree.values, Sexp.texts, Sexp.texts, hmirrors.text_eq, ih]

theorem equalsAll_of_mirrors : Sexp.equalsAll (Tree.values ts) (Sexp.mirroredAll es) = true := by
  induction h with
  | nil =>
    rw [Tree.values, Sexp.mirroredAll]
    rfl
  | cons hmirrors _ ih =>
    rw [Tree.values, Sexp.mirroredAll, Sexp.equalsAll, hmirrors.same, ih]
    rfl

/-- Printed expressions with a space between two neighbours are a way to write the forest. -/
theorem writtenAll_spaced : Tree.WrittenAll ts (Sexp.spaced es).toList := by
  have hspace : Gap [' '] := .blank (by decide) .nil
  unfold Sexp.spaced
  induction h with
  | nil =>
    rw [Tree.WrittenAll]
    rfl
  | @cons t e ts es hmirrors hrest ih =>
    rw [Tree.WrittenAll]
    -- there is a gap behind every expression but the last one
    cases hrest with
    | nil =>
      refine ⟨_, [], [], hmirrors.written, .nil, fun _ => rfl, rfl, ?_⟩
      simp [Sexp.texts]
    | @cons t' e' ts es hmirrors' hrest =>
      refine ⟨_, [' '], _, hmirrors.written, hspace, by simp, ih, ?_⟩
      simp [Sexp.texts]

/-- Printed expressions, one on a line, are a way to write the forest. -/
theorem writtenAll_lines : Tree.WrittenAll ts (Command.lines (Sexp.texts es)).toList := by
  have hnewline : Gap ['\n'] := .blank (by decide) .nil
  induction h with
  | nil =>
    rw [Tree.WrittenAll]
    rfl
  | @cons t e ts es hmirrors _ ih =>
    rw [Tree.WrittenAll]
    refine ⟨_, ['\n'], _, hmirrors.written, hnewline, by simp, ih, ?_⟩
    simp [Command.lines, Sexp.texts]

theorem mirrors_group (b : Bracket) : Mirrors (.group b ts) (.group b es) := by
  refine ⟨?_, ?_, ?_⟩
  · rw [Tree.Written]
    refine ⟨[], (Sexp.spaced es).toList, .nil, writtenAll_spaced h, ?_⟩
    simp [Sexp.text, Sexp.spaced, Bracket.enclose]
  · rw [Tree.value, Sexp.text, Sexp.text, texts_of_mirrors h]
  · rw [Tree.value, Sexp.mirrored, Sexp.equals, equalsAll_of_mirrors h]
    simp

end Forests

/-- The expressions that are read inside `n` groups leave room for their trees. -/
def MirroredWithin (n : Nat) (e : Sexp) : Prop := ∃ t : Tree, n + t.depth ≤ maxNesting ∧ Mirrors t e

theorem exists_forest {n : Nat} (hn : n ≤ maxNesting) {es : List Sexp}
    (h : ∀ e ∈ es, MirroredWithin n e) :
    ∃ ts, n + Tree.depths ts ≤ maxNesting ∧ List.Forall₂ Mirrors ts es := by
  induction es with
  | nil => exact ⟨[], by rw [Tree.depths]; exact hn, .nil⟩
  | cons e es ih =>
    obtain ⟨⟨t, hdepth, hmirrors⟩, hes⟩ := List.forall_mem_cons.mp h
    obtain ⟨ts, hdepths, hrest⟩ := ih hes
    refine ⟨t :: ts, ?_, .cons hmirrors hrest⟩
    rw [Tree.depths]
    omega

theorem reads_mirrored : Reads MirroredWithin where
  atom := by
    intro n a hn ha
    obtain ⟨t, hdepth, hmirrors⟩ := mirrors_atom ha
    exact ⟨t, by omega, hmirrors⟩
  group := by
    intro n b items hn hitems
    obtain ⟨ts, hdepths, hmirrors⟩ := exists_forest hn hitems
    refine ⟨.group b ts, ?_, mirrors_group hmirrors b⟩
    rw [Tree.depth]
    omega

/-- **Printing is a fixed point of reading.** The expressions read from a text, up to its end or to its
    first error, are printed one on a line. Reading the lines succeeds and gives as many expressions, each
    the mirror of the one it was printed from, and printing those gives the same lines. -/
theorem mirror_fixed (text : String) :
    let read := (Reader.ofText text).readAll.expressions
    let mirror := Command.lines (read.map Sexp.text)
    let again := (Reader.ofText mirror).readAll
    again.error = none ∧ again.expressions.length = read.length
      ∧ Command.lines (again.expressions.map Sexp.text) = mirror
      ∧ Sexp.equalsAll again.expressions (read.map Sexp.mirrored) = true := by
  intro read mirror again
  obtain ⟨ts, hdepths, hmirrors⟩ :=
    exists_forest (Nat.zero_le maxNesting) (reads_mirrored.readAll text)
  have hmirror : mirror = Command.lines (Sexp.texts read) := by rw [Sexp.texts_eq_map]
  have hrenders : Tree.Renders ts mirror.toList :=
    ⟨[], _, .nil, hmirror ▸ writtenAll_lines hmirrors, rfl⟩
  obtain ⟨hvalues, hfault⟩ := Tree.scan_renders (by omega) hrenders
  obtain ⟨hitems, _, herror⟩ := Reader.readAll_ofText mirror
  have hagain : again.expressions = Tree.values ts := by
    rw [← hvalues, Program.expressions, hitems, Scan.expressions]
  have htexts : again.expressions.map Sexp.text = read.map Sexp.text := by
    rw [hagain, ← Sexp.texts_eq_map, ← Sexp.texts_eq_map, texts_of_mirrors hmirrors]
  refine ⟨?_, ?_, ?_, ?_⟩
  · rw [herror, hfault, Option.map_none]
  · have hlength := congrArg List.length htexts
    rwa [List.length_map, List.length_map] at hlength
  · rw [htexts]
  · rw [hagain, ← Sexp.mirroredAll_eq_map]
    exact equalsAll_of_mirrors hmirrors

/-- Odd spellings of strings and numbers. -/
example : Command.lines ((Reader.ofText "'a\"b' (1e999 -0 .5)\n[/= /=x/g]").readAll.expressions.map Sexp.text)
    = "\"a\\\"b\"\n(Infinity 0 0.5)\n[/= /=x/g]\n" := by
  decide +kernel

end FormScript
