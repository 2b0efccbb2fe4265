import Mathlib.Data.List.TakeWhile

/-!
# Patterns of texts

Regular patterns in which only single characters are repeated, and how they are matched in front of a text.
Alternatives are tried in order and repetitions with as many characters as there are, so the match that is
found is the first of all that there are (`Pattern.cuts`). Which texts a pattern describes is told without
any order by `Pattern.Matches`; the two agree (`Pattern.mem_cuts`).

What is found in front of a given text can be told part by part: the first match of a sequence is the first
match of its first part, if the second part matches behind it (`first?_seq`).
-/

namespace FormScript

/-- A pattern of texts. Only single characters are repeated. -/
inductive Pattern where
  | empty
  | one (keep : Char → Bool)
  | many (keep : Char → Bool)
  | seq (first second : Pattern)
  | either (first second : Pattern)

namespace Pattern

/-- The character `c`. -/
def literal (c : Char) : Pattern := .one fun d => d = c

/-- At least one of the characters, and as many as there are. -/
def several (keep : Char → Bool) : Pattern := .seq (.one keep) (.many keep)

/-- The pattern, or nothing. -/
def optional (p : Pattern) : Pattern := .either p .empty

/-- The texts that a pattern describes. -/
def Matches : Pattern → List Char → Prop
  | .empty, cs => cs = []
  | .one keep, cs => ∃ c, keep c = true ∧ cs = [c]
  | .many keep, cs => ∀ c ∈ cs, keep c = true
  | .seq p q, cs => ∃ u v, p.Matches u ∧ q.Matches v ∧ cs = u ++ v
  | .either p q, cs => p.Matches cs ∨ q.Matches cs

/-- The ways to cut off characters of one kind in front of a text, the longest first. -/
def runs (keep : Char → Bool) : List Char → List (List Char × List Char)
  | [] => [([], [])]
  | c :: cs =>
    if keep c then (runs keep cs).map (fun cut => (c :: cut.1, cut.2)) ++ [([], c :: cs)]
    else [([], c :: cs)]

/-- The ways to cut off a match in front of a text, in the order in which they are tried. -/
def cuts : Pattern → List Char → List (List Char × List Char)
  | .empty, cs => [([], cs)]
  | .one _, [] => []
  | .one keep, c :: cs => if keep c then [([c], cs)] else []
  | .many keep, cs => runs keep cs
  | .seq p q, cs =>
    (p.cuts cs).flatMap fun cut => (q.cuts cut.2).map fun next => (cut.1 ++ next.1, next.2)
  | .either p q, cs => p.cuts cs ++ q.cuts cs

/-- The match that is found in front of a text, and what it leaves. -/
def first? (p : Pattern) (cs : List Char) : Option (List Char × List Char) := (p.cuts cs).head?

/-- Whether some match takes the whole text. -/
def accepts (p : Pattern) (cs : List Char) : Bool := (p.cuts cs).any fun cut => cut.2.isEmpty

theorem mem_runs {keep : Char → Bool} {cs : List Char} {cut : List Char × List Char} :
    cut ∈ runs keep cs ↔ (∀ c ∈ cut.1, keep c = true) ∧ cs = cut.1 ++ cut.2 := by
  obtain ⟨u, rest⟩ := cut
  fun_induction runs keep cs generalizing u with
  | case1 =>
    rw [List.mem_singleton]
    constructor
    · intro h
      cases h
      exact ⟨List.forall_mem_nil _, rfl⟩
    · rintro ⟨-, heq⟩
      obtain ⟨rfl, rfl⟩ := List.append_eq_nil_iff.mp heq.symm
      rfl
  | case2 c cs hc ih =>
    rw [List.mem_append, List.mem_map, List.mem_singleton]
    constructor
    · rintro (⟨⟨v, _⟩, hv, hcut⟩ | hcut)
      · cases hcut
        obtain ⟨hkeep, rfl⟩ := ih v |>.mp hv
        exact ⟨List.forall_mem_cons.mpr ⟨hc, hkeep⟩, rfl⟩
      · cases hcut
        exact ⟨List.forall_mem_nil _, rfl⟩
    · rintro ⟨hkeep, heq⟩
      cases u with
      | nil => exact .inr (by rw [heq]; rfl)
      | cons d v =>
        obtain ⟨rfl, rfl⟩ := List.cons.inj heq
        exact .inl ⟨⟨v, rest⟩, (ih v).mpr ⟨(List.forall_mem_cons.mp hkeep).2, rfl⟩, rfl⟩
  | case3 c cs hc =>
    rw [List.mem_singleton]
    constructor
    · intro h
      cases h
      exact ⟨List.forall_mem_nil _, rfl⟩
    · rintro ⟨hkeep, heq⟩
      cases u with
      | nil => rw [heq]; rfl
      | cons d v =>
        obtain ⟨rfl, rfl⟩ := List.cons.inj heq
        exact absurd (List.forall_mem_cons.mp hkeep).1 hc

/-- **The cuts are all the matches.** -/
theorem mem_cuts {p : Pattern} {cs : List Char} {cut : List Char × List Char} :
    cut ∈ p.cuts cs ↔ p.Matches cut.1 ∧ cs = cut.1 ++ cut.2 := by
  induction p generalizing cs cut with
  | empty =>
    obtain ⟨u, rest⟩ := cut
    simp only [cuts, Matches, List.mem_singleton, Prod.mk.injEq]
    constructor
    · rintro ⟨rfl, rfl⟩
      exact ⟨rfl, rfl⟩
    · rintro ⟨rfl, rfl⟩
      exact ⟨rfl, rfl⟩
  | one keep =>
    obtain ⟨u, rest⟩ := cut
    constructor
    · intro h
      cases cs with
      | nil => cases h
      | cons c cs =>
        rw [cuts, List.mem_ite_nil_right, List.mem_singleton] at h
        obtain ⟨hc, hcut⟩ := h
        cases hcut
        exact ⟨⟨c, hc, rfl⟩, rfl⟩
    · rintro ⟨⟨c, hc, rfl⟩, rfl⟩
      simp [cuts, hc]
  | many keep => exact mem_runs
  | seq p q ihp ihq =>
    simp only [cuts, Matches, List.mem_flatMap, List.mem_map, ihp, ihq]
    constructor
    · rintro ⟨⟨u, _⟩, ⟨hu, rfl⟩, ⟨v, rest⟩, ⟨hv, rfl⟩, rfl⟩
      exact ⟨⟨u, v, hu, hv, rfl⟩, (List.append_assoc u v rest).symm⟩
    · rintro ⟨⟨u, v, hu, hv, hcut⟩, rfl⟩
      refine ⟨⟨u, v ++ cut.2⟩, ⟨hu, ?_⟩, ⟨v, cut.2⟩, ⟨hv, rfl⟩, ?_⟩
      · rw [hcut, List.append_assoc]
      · rw [← hcut]
  | either p q ihp ihq =>
    simp only [cuts, Matches, List.mem_append, ihp, ihq]
    exact or_and_right.symm

/-- A pattern accepts the texts that it describes. -/
theorem accepts_iff {p : Pattern} {cs : List Char} : p.accepts cs = true ↔ p.Matches cs := by
  simp only [accepts, List.any_eq_true, List.isEmpty_iff, mem_cuts]
  constructor
  · rintro ⟨⟨u, _⟩, ⟨hu, rfl⟩, rfl⟩
    rw [List.append_nil]
    exact hu
  · intro h
    exact ⟨⟨cs, []⟩, ⟨h, (List.append_nil cs).symm⟩, rfl⟩

/-- What is found is a match. -/
theorem matches_of_first? {p : Pattern} {cs : List Char} {cut : List Char × List Char}
    (h : p.first? cs = some cut) : p.Matches cut.1 ∧ cs = cut.1 ++ cut.2 :=
  mem_cuts.mp (List.mem_of_mem_head? h)

/-- If the second pattern matches behind the match that is found for the first one, nothing else is
    tried. -/
theorem first?_seq {p q : Pattern} {cs u v rest rest' : List Char}
    (hp : p.first? cs = some (u, rest)) (hq : q.first? rest = some (v, rest')) :
    (seq p q).first? cs = some (u ++ v, rest') := by
  obtain ⟨more, hcuts⟩ := List.head?_eq_some_iff.mp hp
  obtain ⟨more', hcuts'⟩ := List.head?_eq_some_iff.mp hq
  simp [first?, cuts, hcuts, hcuts']

theorem cuts_seq_nil {p q : Pattern} {cs : List Char} (h : ∀ cut ∈ p.cuts cs, q.cuts cut.2 = []) :
    (seq p q).cuts cs = [] := by
  rw [cuts, List.flatMap_eq_nil_iff]
  intro cut hcut
  rw [h cut hcut, List.map_nil]

theorem first?_either {p q : Pattern} {cs : List Char} {cut : List Char × List Char}
    (h : p.first? cs = some cut) : (either p q).first? cs = some cut := by
  rw [first?, cuts, List.head?_append, show (p.cuts cs).head? = some cut from h, Option.some_or]

theorem first?_either_of_nil {p q : Pattern} {cs : List Char} (h : p.cuts cs = []) :
    (either p q).first? cs = q.first? cs := by
  rw [first?, cuts, h, List.nil_append]
  rfl

theorem first?_optional_of_nil {p : Pattern} {cs : List Char} (h : p.cuts cs = []) :
    (optional p).first? cs = some ([], cs) :=
  first?_either_of_nil h

theorem first?_many (keep : Char → Bool) (cs : List Char) :
    (many keep).first? cs = some (cs.takeWhile keep, cs.dropWhile keep) := by
  show (runs keep cs).head? = _
  fun_induction runs keep cs with
  | case1 => rfl
  | case2 c cs hc ih =>
    rw [List.head?_append, List.head?_map, ih]
    simp [hc]
  | case3 c cs hc => simp [hc]

theorem first?_literal (c : Char) (cs : List Char) :
    (literal c).first? (c :: cs) = some ([c], cs) := by
  simp [first?, literal, cuts]

theorem cuts_one_nil {keep : Char → Bool} {cs : List Char}
    (h : ∀ c, cs.head? = some c → keep c = false) : (one keep).cuts cs = [] := by
  cases cs with
  | nil => rfl
  | cons c cs => simp [cuts, h c rfl]

theorem cuts_literal_nil {c : Char} {cs : List Char} (h : cs.head? ≠ some c) :
    (literal c).cuts cs = [] := by
  apply cuts_one_nil
  intro d hd
  exact decide_eq_false fun heq => h (heq ▸ hd)

theorem cuts_seq_nil_of_left {p q : Pattern} {cs : List Char} (h : p.cuts cs = []) :
    (seq p q).cuts cs = [] :=
  cuts_seq_nil (by rw [h]; exact List.forall_mem_nil _)

theorem matches_several {keep : Char → Bool} {cs : List Char} :
    (several keep).Matches cs ↔ cs ≠ [] ∧ ∀ c ∈ cs, keep c = true := by
  constructor
  · rintro ⟨_, v, ⟨c, hc, rfl⟩, hv, rfl⟩
    exact ⟨List.cons_ne_nil _ _, List.forall_mem_cons.mpr ⟨hc, hv⟩⟩
  · rintro ⟨hne, hkeep⟩
    obtain ⟨c, cs, rfl⟩ := List.exists_cons_of_ne_nil hne
    obtain ⟨hc, hcs⟩ := List.forall_mem_cons.mp hkeep
    exact ⟨[c], cs, ⟨c, hc, rfl⟩, hcs, rfl⟩

theorem matches_literal {c : Char} {cs : List Char} : (literal c).Matches cs ↔ cs = [c] := by
  simp [literal, Matches]

end Pattern

end FormScript
