import FormScript.Proofs.Lowering.Composition
import FormScript.Proofs.Number.RoundTrip

/-!
# Statements and the semicolons between them

A semicolon that has a brace or another semicolon next to it where a statement should be stands for an empty
statement. `Orderly` texts have no empty statements, with one exception: the block of a loop over members
begins with a statement of its own, and the semicolon behind that one is written whether or not the body
leaves a text. A text is `Tidy` when it is orderly and may stand next to any other such text, in braces and
beside a semicolon. Tidy texts stay tidy where forms put them together (`composes_tidy`).
-/

namespace FormScript

/-- Neighbours between which a statement is missing. -/
def clashes : List (Char × Char) := [('\x7b', ';'), (';', ';'), (';', '\x7d')]

/-- The block of a loop over members, up to the end of its first statement. -/
def memberLead : List Char := "\x7bvar val=obj_[key]".toList

/-- A clash stands at the end of the block of a loop over members whose body leaves no text, and only if there
    are such loops. -/
def Excused (loops : Prop) (front : List Char) (a b : Char) : Prop :=
  loops ∧ (a, b) = (';', '\x7d') ∧ memberLead <:+ front

/-- All clashes in the text are excused. -/
def Orderly (loops : Prop) (cs : List Char) : Prop :=
  ∀ front a b back, cs = front ++ a :: b :: back → (a, b) ∈ clashes → Excused loops front a b

variable {loops : Prop}

theorem left_of_clash {a b : Char} (h : (a, b) ∈ clashes) : a = '\x7b' ∨ a = ';' := by
  simp only [clashes, List.mem_cons, Prod.mk.injEq, List.not_mem_nil, or_false] at h
  rcases h with ⟨rfl, _⟩ | ⟨rfl, _⟩ | ⟨rfl, _⟩ <;> simp

theorem right_of_clash {a b : Char} (h : (a, b) ∈ clashes) : b = ';' ∨ (a = ';' ∧ b = '\x7d') := by
  simp only [clashes, List.mem_cons, Prod.mk.injEq, List.not_mem_nil, or_false] at h
  rcases h with ⟨_, rfl⟩ | ⟨_, rfl⟩ | ⟨rfl, rfl⟩ <;> simp

namespace Orderly

/-- Without semicolons there are no clashes. -/
theorem of_not_mem {cs : List Char} (h : ';' ∉ cs) : Orderly loops cs := by
  rintro front a b back rfl hclash
  simp only [List.mem_append, List.mem_cons, not_or] at h
  rcases right_of_clash hclash with rfl | ⟨rfl, _⟩
  · exact absurd rfl h.2.2.1
  · exact absurd rfl h.2.1

theorem singleton (c : Char) : Orderly loops [c] := by
  intro front a b back hsplit
  have hlength := congrArg List.length hsplit
  simp only [List.length_append, List.length_cons, List.length_nil] at hlength
  omega

/-- Two orderly texts, where a clash at their border is excused too. -/
theorem append {cs ds : List Char} (hcs : Orderly loops cs) (hds : Orderly loops ds)
    (hborder : ∀ front a b back, cs = front ++ [a] → ds = b :: back → (a, b) ∈ clashes →
      Excused loops front a b) : Orderly loops (cs ++ ds) := by
  intro front a b back hsplit hclash
  rcases List.append_eq_append_iff.mp hsplit with ⟨more, rfl, hrest⟩ | ⟨more, rfl, hrest⟩
  · -- the clash stands in the second text
    obtain ⟨hloops, hpair, hlead⟩ := hds more a b back hrest hclash
    exact ⟨hloops, hpair, hlead.trans (List.suffix_append cs more)⟩
  · cases more with
    | nil =>
      obtain ⟨hloops, hpair, hlead⟩ := hds [] a b back hrest.symm hclash
      exact ⟨hloops, hpair, hlead.trans (List.nil_suffix)⟩
    | cons x more =>
      obtain ⟨rfl, hbehind⟩ := List.cons.inj hrest
      cases more with
      | nil => exact hborder front a b back rfl hbehind.symm hclash
      | cons y more =>
        obtain ⟨rfl, _⟩ := List.cons.inj hbehind
        exact hcs front a b more rfl hclash

theorem not_infix {cs : List Char} (h : Orderly loops cs) {a b : Char} (hclash : (a, b) ∈ clashes)
    (hnot : ∀ front, ¬Excused loops front a b) : ¬[a, b] <:+: cs := by
  rintro ⟨front, back, hsplit⟩
  rw [List.append_assoc] at hsplit
  exact hnot front (h front a b back hsplit.symm hclash)

theorem cons {c : Char} {cs : List Char} (hcs : Orderly loops cs)
    (hborder : ∀ b ∈ cs.head?, (c, b) ∉ clashes) : Orderly loops (c :: cs) := by
  refine (Orderly.singleton c).append hcs fun front a b back ha hb hclash => ?_
  have hsame : a = c := by simpa using congrArg List.getLast? ha.symm
  subst hsame
  exact absurd hclash (hborder b (by rw [hb]; rfl))

end Orderly

/-- The text is orderly and clashes with nothing next to it that is. -/
structure Tidy (loops : Prop) (text : String) : Prop where
  orderly : Orderly loops text.toList
  head : ∀ c ∈ text.toList.head?, c ≠ ';' ∧ c ≠ '\x7d'
  last : ∀ c ∈ text.toList.getLast?, c ≠ ';' ∧ c ≠ '\x7b'

namespace Tidy

/-- Behind a tidy text there is no clash. -/
theorem border {text : String} (h : Tidy loops text) (front : List Char) {a : Char}
    (htext : text.toList = front ++ [a]) (b : Char) : (a, b) ∉ clashes := by
  intro hclash
  have hlast : a ∈ text.toList.getLast? := by simp [htext]
  obtain ⟨hsemicolon, hbrace⟩ := h.last a hlast
  rcases left_of_clash hclash with rfl | rfl
  · exact hbrace rfl
  · exact hsemicolon rfl

/-- In front of a tidy text there is no clash either. -/
theorem border_before {text : String} (h : Tidy loops text) {b : Char}
    (hb : text.toList.head? = some b) (a : Char) : (a, b) ∉ clashes := by
  intro hclash
  obtain ⟨hsemicolon, hbrace⟩ := h.head b hb
  rcases right_of_clash hclash with rfl | ⟨_, rfl⟩
  · exact hsemicolon rfl
  · exact hbrace rfl

theorem append {s t : String} (hs : Tidy loops s) (ht : Tidy loops t) : Tidy loops (s ++ t) where
  orderly := by
    rw [String.toList_append]
    refine hs.orderly.append ht.orderly fun front a b _ hcs _ hclash => ?_
    exact absurd hclash (hs.border front hcs b)
  head := by
    intro c hc
    rw [String.toList_append, List.head?_append, Option.mem_def, Option.or_eq_some_iff] at hc
    rcases hc with hc | ⟨_, hc⟩
    · exact hs.head c hc
    · exact ht.head c hc
  last := by
    intro c hc
    rw [String.toList_append, List.getLast?_append, Option.mem_def, Option.or_eq_some_iff] at hc
    rcases hc with hc | ⟨_, hc⟩
    · exact ht.last c hc
    · exact hs.last c hc

/-- A text without semicolons that does not begin or end inside a pair of braces. -/
def isQuiet (text : String) : Bool :=
  text.toList.all (· ≠ ';') && decide (text.toList.head? ≠ some '\x7d')
    && decide (text.toList.getLast? ≠ some '\x7b')

theorem of_isQuiet {text : String} (h : isQuiet text = true) : Tidy loops text := by
  simp only [isQuiet, Bool.and_eq_true, List.all_eq_true, decide_eq_true_eq] at h
  obtain ⟨⟨hchars, hhead⟩, hlast⟩ := h
  refine ⟨.of_not_mem fun hmem => hchars _ hmem rfl, ?_, ?_⟩
  · intro c hc
    refine ⟨hchars c (List.mem_of_mem_head? hc), ?_⟩
    rintro rfl
    exact hhead hc
  · intro c hc
    refine ⟨hchars c (List.mem_of_getLast? hc), ?_⟩
    rintro rfl
    exact hlast hc

/-- Two texts with a semicolon between them. -/
theorem sequence {s t : String} (hs : Tidy loops s) (hsne : s ≠ "") (ht : Tidy loops t) (htne : t ≠ "") :
    Tidy loops (s ++ (";" ++ t)) := by
  have hchars : (s ++ (";" ++ t)).toList = s.toList ++ ';' :: t.toList := by simp
  have hsecond : Orderly loops (';' :: t.toList) :=
    ht.orderly.cons fun b hb => ht.border_before hb ';'
  constructor
  · rw [hchars]
    refine hs.orderly.append hsecond fun front a b _ hcs _ hclash => ?_
    exact absurd hclash (hs.border front hcs b)
  · intro c hc
    rw [hchars, List.head?_append_of_ne_nil _ (by simpa using hsne)] at hc
    exact hs.head c hc
  · intro c hc
    rw [hchars, List.getLast?_append_of_ne_nil _ (List.cons_ne_nil _ _),
      List.getLast?_cons_of_ne_nil (by simpa using htne)] at hc
    exact ht.last c hc

theorem orderly_closed {s : String} (hs : Tidy loops s) : Orderly loops (s.toList ++ ['\x7d']) := by
  refine hs.orderly.append (.singleton _) fun front a b _ hcs _ hclash => ?_
  exact absurd hclash (hs.border front hcs b)

/-- A text in braces. -/
theorem braces {s : String} (hs : Tidy loops s) : Tidy loops ("\x7b" ++ (s ++ "\x7d")) := by
  have hchars : ("\x7b" ++ (s ++ "\x7d")).toList = '\x7b' :: (s.toList ++ ['\x7d']) := by simp
  constructor
  · rw [hchars]
    refine hs.orderly_closed.cons fun b hb hclash => ?_
    obtain rfl | ⟨habsurd, _⟩ := right_of_clash hclash
    · rw [List.head?_append, Option.mem_def, Option.or_eq_some_iff] at hb
      rcases hb with hb | ⟨_, hb⟩
      · exact (hs.head _ hb).1 rfl
      · cases hb
    · exact absurd habsurd (by decide)
  · intro c hc
    rw [hchars, List.head?_cons] at hc
    cases hc
    decide
  · intro c hc
    rw [hchars, ← List.cons_append, List.getLast?_append] at hc
    cases hc
    decide

theorem between (b : Bracket) {s : String} (hs : Tidy loops s) :
    Tidy loops (String.singleton b.opening ++ (s ++ String.singleton b.closing)) := by
  cases b with
  | round => exact append (of_isQuiet rfl) (append hs (of_isQuiet rfl))
  | square => exact append (of_isQuiet rfl) (append hs (of_isQuiet rfl))
  | curly => exact braces hs

/-- The block of a loop over members. -/
theorem members (hloops : loops) {s : String} (hs : Tidy loops s) :
    Tidy loops ("\x7b" ++ (("var val=obj_[key];" ++ s) ++ "\x7d")) := by
  have hchars : ("\x7b" ++ (("var val=obj_[key];" ++ s) ++ "\x7d")).toList
      = (memberLead ++ [';']) ++ (s.toList ++ ['\x7d']) := by
    have hfixed : "\x7b".toList ++ "var val=obj_[key];".toList = memberLead ++ [';'] := by
      decide +kernel
    have hclose : "\x7d".toList = ['\x7d'] := by decide +kernel
    rw [String.toList_append, String.toList_append, String.toList_append, hclose, List.append_assoc,
      ← List.append_assoc, hfixed]
  have hlead : Orderly loops (memberLead ++ [';']) := by
    have hquiet : ';' ∉ memberLead := by decide +kernel
    have hlast : memberLead.getLast? = some ']' := by decide +kernel
    refine (Orderly.of_not_mem hquiet).append (.singleton _) fun front a b _ ha _ hclash => ?_
    rw [ha, List.getLast?_append] at hlast
    cases hlast
    exact absurd (left_of_clash hclash) (by decide)
  constructor
  · rw [hchars]
    refine hlead.append hs.orderly_closed fun front a b back ha hb hclash => ?_
    obtain ⟨rfl, hlast⟩ := List.append_inj' ha rfl
    cases hlast
    -- without a text of the body the semicolon meets the brace, as it may here
    cases hbody : s.toList with
    | nil =>
      rw [hbody] at hb
      cases hb
      exact ⟨hloops, rfl, List.suffix_refl _⟩
    | cons c cs =>
      rw [hbody] at hb
      have hhead : s.toList.head? = some b := by rw [hbody, (List.cons.inj hb).1, List.head?_cons]
      exact absurd hclash (hs.border_before hhead _)
  · intro c hc
    have hhead : memberLead.head? = some '\x7b' := by decide +kernel
    rw [hchars, List.append_assoc, List.head?_append, hhead] at hc
    cases hc
    decide
  · intro c hc
    rw [hchars, ← List.append_assoc, List.getLast?_append] at hc
    cases hc
    decide

end Tidy

/-! ## Atoms and literals -/

/-- Characters that end no statement and bound no block. -/
def isTame (c : Char) : Bool := decide (c ≠ ';') && decide (c ≠ '\x7b') && decide (c ≠ '\x7d')

theorem isTame_iff {c : Char} : isTame c = true ↔ c ≠ ';' ∧ c ≠ '\x7b' ∧ c ≠ '\x7d' := by
  simp [isTame, and_assoc]

theorem tidy_of_tame {text : String} (h : ∀ c ∈ text.toList, isTame c = true) : Tidy loops text := by
  constructor
  · refine .of_not_mem fun hmem => ?_
    exact absurd (h _ hmem) (by decide)
  · intro c hc
    obtain ⟨hsemicolon, _, hbrace⟩ := isTame_iff.mp (h c (List.mem_of_mem_head? hc))
    exact ⟨hsemicolon, hbrace⟩
  · intro c hc
    obtain ⟨hsemicolon, hbrace, _⟩ := isTame_iff.mp (h c (List.mem_of_getLast? hc))
    exact ⟨hsemicolon, hbrace⟩

/-- An atom that brings no semicolon and no brace into a text, and no loop over members unless `loops`. -/
def tameAtom (loops : Prop) : Sexp → Prop
  | .symbol name => (∀ c ∈ name.toList, isTame c = true) ∧ (name = Builtin.iteration.name → loops)
  | .string _ => False
  | .regex _ _ => False
  | _ => True

theorem tame_number (x : Number) : ∀ c ∈ x.text.toList, isTame c = true := by
  intro c hc
  have hspelling := x.text_chars.2 c hc
  exact isTame_iff.mpr
    ⟨ne_of_class hspelling rfl, ne_of_class hspelling rfl, ne_of_class hspelling rfl⟩

theorem tame_labelName {label : String} (h : ∀ c ∈ label.toList, isTame c = true) :
    ∀ c ∈ (Forms.labelName label).toList, isTame c = true := by
  unfold Forms.labelName
  split
  · rw [String.toList_ofList]
    exact fun c hc => h c (List.dropLast_subset _ hc)
  · exact h

theorem not_mem_intercalate {c : Char} {separator : String} (hseparator : c ∉ separator.toList)
    {texts : List String} (h : ∀ text ∈ texts, c ∉ text.toList) :
    c ∉ (separator.intercalate texts).toList := by
  induction texts with
  | nil => simp
  | cons text rest ih =>
    obtain ⟨htext, hrest⟩ := List.forall_mem_cons.mp h
    cases rest with
    | nil =>
      rw [String.intercalate_singleton]
      exact htext
    | cons next more =>
      rw [String.intercalate_cons_cons, String.toList_append, String.toList_append]
      simp only [List.mem_append, not_or]
      exact ⟨⟨htext, hseparator⟩, ih hrest⟩

namespace Sexp

mutual

/-- In source notation a semicolon can stand only in an atom. -/
theorem semicolon_not_mem_text (e : Sexp) (h : e.Every (tameAtom loops)) : ';' ∉ e.text.toList := by
  cases e with
  | number x =>
    intro hmem
    exact absurd (tame_number x _ hmem) (by decide)
  | symbol name =>
    intro hmem
    exact absurd ((every_symbol.mp h).1 _ hmem) (by decide)
  | string content => exact absurd (every_string.mp h) id
  | regex pattern flags => exact absurd (every_regex.mp h) id
  | group b items =>
    have hitems := semicolon_not_mem_texts items (everyIn_of_group h)
    have hinner : ';' ∉ (" ".intercalate (texts items)).toList :=
      not_mem_intercalate (by decide) hitems
    rw [text, Bracket.enclose]
    generalize " ".intercalate (texts items) = inner at hinner ⊢
    cases b <;> simp [Bracket.opening, Bracket.closing, hinner]

theorem semicolon_not_mem_texts (es : List Sexp) (h : EveryIn (tameAtom loops) es) :
    ∀ text ∈ texts es, ';' ∉ text.toList := by
  cases es with
  | nil => simp [texts]
  | cons e es =>
    rw [texts]
    exact List.forall_mem_cons.mpr
      ⟨semicolon_not_mem_text e h.1, semicolon_not_mem_texts es h.2⟩

end

end Sexp

/-- A literal in which no semicolon stands. -/
theorem tidy_literal {cs : List Char} (h : ';' ∉ cs) :
    Tidy loops (String.ofList ('"' :: (cs ++ ['"']))) := by
  apply Tidy.of_isQuiet
  have hchars : ∀ c ∈ '"' :: (cs ++ ['"']), c ≠ ';' := by
    rintro c hc rfl
    simp [h] at hc
  simp only [Tidy.isQuiet, String.toList_ofList, Bool.and_eq_true, List.all_eq_true, decide_eq_true_eq]
  refine ⟨⟨hchars, by simp⟩, ?_⟩
  rw [← List.cons_append, List.getLast?_append]
  simp

/-- No escape has a semicolon in it. -/
theorem eq_semicolon_of_mem_escapeBare {c : Char} (h : ';' ∈ Literal.escapeBare c) : c = ';' := by
  unfold Literal.escapeBare at h
  split_ifs at h
  all_goals simp at h
  exact h.symm

theorem semicolon_not_mem_body {cs : List Char} (h : ';' ∉ cs) : ';' ∉ Literal.body cs := by
  fun_induction Literal.body cs with
  | case1 => exact h
  | case2 => decide
  | case3 c hc =>
    intro hmem
    exact h (by simp [eq_semicolon_of_mem_escapeBare hmem])
  | case4 d cs ih =>
    simp only [List.mem_cons, not_or] at h ⊢
    exact ⟨h.1, h.2.1, ih h.2.2⟩
  | case5 c d cs hc ih =>
    simp only [List.mem_cons, not_or] at h
    rw [List.mem_append, not_or]
    refine ⟨fun hmem => h.1 (eq_semicolon_of_mem_escapeBare hmem).symm, ih ?_⟩
    simp [h.2]

theorem semicolon_not_mem_verbatimBody {cs : List Char} (h : ';' ∉ cs) :
    ';' ∉ Literal.verbatimBody cs := by
  intro hmem
  obtain ⟨c, hc, hmem⟩ := List.mem_flatMap.mp hmem
  split at hmem
  · simp at hmem
  · rw [eq_semicolon_of_mem_escapeBare hmem] at hc
    exact h hc

theorem tidy_atom {a : Sexp} (h : tameAtom loops a) (hatom : a.elements? = none) : Tidy loops a.text := by
  cases a with
  | number x => exact tidy_of_tame (tame_number x)
  | symbol name => exact tidy_of_tame h.1
  | string content => exact absurd h id
  | regex pattern flags => exact absurd h id
  | group b items => cases hatom

open Sexp in
theorem semicolon_not_mem_spaced {es : List Sexp} (h : EveryIn (tameAtom loops) es) :
    ';' ∉ (spaced es).toList :=
  not_mem_intercalate (by decide) (semicolon_not_mem_texts es h)

/-- **Tidy texts are tidy when forms have put them together.** -/
theorem composes_tidy (loops : Prop) : Composes (tameAtom loops) (Tidy loops) where
  fixed := by
    have hall : fixedTexts.all Tidy.isQuiet = true := by decide +kernel
    intro s hs
    exact Tidy.of_isQuiet (List.all_eq_true.mp hall s hs)
  append := Tidy.append
  between := fun b _ hs => hs.between b
  sequence := Tidy.sequence
  members := fun hname _ hs => hs.members (hname.2 rfl)
  atom := tidy_atom
  label := fun h => tidy_of_tame (tame_labelName h.1)
  words := fun h => tidy_literal (semicolon_not_mem_body (semicolon_not_mem_spaced h))
  quotation := fun h => tidy_literal (semicolon_not_mem_verbatimBody (semicolon_not_mem_spaced h))
  closed :=
    { number := fun _ => trivial
      yes := ⟨List.all_eq_true.mp (by decide), fun h => absurd h (by decide)⟩
      no := ⟨List.all_eq_true.mp (by decide), fun h => absurd h (by decide)⟩
      null := ⟨List.all_eq_true.mp (by decide), fun h => absurd h (by decide)⟩ }

end FormScript
