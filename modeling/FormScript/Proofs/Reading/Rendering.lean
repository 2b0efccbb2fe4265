import FormScript.Proofs.Reading.Relocation
import FormScript.Proofs.Reading.Scan

/-!
# Renderings

A forest is built from atom spellings and brackets. It can be written in many ways: between two
elements there must be a gap, after an opening bracket, before a closing one and at both ends of the
text there may be one, and every gap is any mix of blanks and comments. `Renders` is the relation
between a forest and its texts. Reading any of them gives the expressions of the forest, in order
(`scan_renders`).

The proof is an induction over the trees. What it carries is that a tree is read from the groups that
are open around it, whatever those hold, and from any place, as long as a character follows after which
a slash stands alone (`readWithin_written`).
-/

namespace FormScript

/-- A text that is read as one atom, from its first character to its last, and that does not stand for
    the place it is read at. -/
structure Spelling where
  text : String
  item : Located
  reads : (Reader.ofText text).readAll.items = [item]
  no_error : (Reader.ofText text).readAll.error = none
  start_eq : item.start.offset = 0
  stop_eq : item.stop.offset = text.length
  not_group : item.expression.elements? = none
  not_line : text ≠ lineMarker
  not_column : text ≠ columnMarker

/-- A tree of atom spellings in brackets. -/
inductive Tree where
  | atom (spelling : Spelling)
  | group (bracket : Bracket) (items : List Tree)

namespace Tree

mutual

/-- The expression that a tree stands for. -/
def value : Tree → Sexp
  | .atom spelling => spelling.item.expression
  | .group bracket items => .group bracket (values items)

/-- The expressions of a forest. -/
def values : List Tree → List Sexp
  | [] => []
  | t :: ts => value t :: values ts

end

mutual

/-- How deep the brackets of a tree nest. -/
def depth : Tree → Nat
  | .atom _ => 0
  | .group _ items => depths items + 1

/-- How deep the brackets of a forest nest. -/
def depths : List Tree → Nat
  | [] => 0
  | t :: ts => max (depth t) (depths ts)

end

mutual

/-- `cs` is a way to write the tree, from its first character to its last. -/
def Written : Tree → List Char → Prop
  | .atom spelling, cs => cs = spelling.text.toList
  | .group bracket items, cs => ∃ lead inner, Gap lead ∧ WrittenAll items inner
      ∧ cs = bracket.opening :: (lead ++ (inner ++ [bracket.closing]))

/-- `cs` is a way to write the trees one after the other, each with a gap behind it. Only the gap behind
    the last one may be empty. -/
def WrittenAll : List Tree → List Char → Prop
  | [], cs => cs = []
  | t :: ts, cs => ∃ own gap more, Written t own ∧ Gap gap ∧ (gap = [] → ts = [])
      ∧ WrittenAll ts more ∧ cs = own ++ (gap ++ more)

end

/-- `text` is a way to write the forest. -/
def Renders (forest : List Tree) (text : List Char) : Prop :=
  ∃ lead cs, Gap lead ∧ WrittenAll forest cs ∧ text = lead ++ cs

end Tree

/-! ## Atom spellings -/

namespace Cursor

/-- A cursor that has moved over nothing is where it was. -/
theorem Reaches.eq_of_offset {c d : Cursor} (h : c.Reaches d)
    (hoffset : d.position.offset = c.position.offset) : d = c := by
  obtain ⟨taken, hrest, hpos⟩ := h
  rw [hpos, Position.advance_offset] at hoffset
  have hnil : taken = [] := List.length_eq_zero_iff.mp (by omega)
  subst hnil
  cases c
  cases d
  exact (Cursor.mk.injEq _ _ _ _).mpr ⟨hrest.symm, hpos⟩

end Cursor

namespace Spelling

/-- The run that reads a spelling begins at its first character and takes it all. -/
theorem readWithin_self (s : Spelling) :
    (Cursor.ofText s.text.toList).skipGap = Cursor.ofText s.text.toList
      ∧ ∃ p, (Cursor.ofText s.text.toList).readWithin [] = (.ok (some s.item.expression), ⟨[], p⟩) := by
  have hitems : (Cursor.ofText s.text.toList).scan.items = [s.item] :=
    (Reader.readAll_ofText s.text).1 ▸ s.reads
  have hreach := Cursor.readWithin_reaches [] (Cursor.ofText s.text.toList)
  have hgap := (Cursor.ofText s.text.toList).skipGap_reaches
  cases hrun : (Cursor.ofText s.text.toList).readWithin [] with
  | mk outcome stop =>
    match outcome with
    | .error fault =>
      rw [Cursor.scan_of_error hrun] at hitems
      cases hitems
    | .ok none =>
      rw [Cursor.scan_of_none hrun] at hitems
      cases hitems
    | .ok (some e) =>
      rw [Cursor.scan_of_some hrun] at hitems
      have hitem := (List.cons.inj hitems).1
      have hstart := s.start_eq
      have hstop := s.stop_eq
      rw [← hitem] at hstart hstop ⊢
      refine ⟨hgap.eq_of_offset hstart, stop.position, ?_⟩
      have hstopReach : (Cursor.ofText s.text.toList).Reaches stop := by
        rw [hrun] at hreach
        exact hreach
      have hoffset := hstopReach.offset
      have hlength : (Cursor.ofText s.text.toList).rest.length = s.text.length :=
        String.length_toList
      have hnil : stop.rest = [] := by
        apply List.length_eq_zero_iff.mp
        have hzero : (Cursor.ofText s.text.toList).position.offset = 0 := rfl
        have hpos : stop.position.offset = s.text.length := hstop
        omega
      rw [← hnil]

/-- A spelling begins with a character of an atom, and the atom takes it all. -/
theorem readAtom_self (s : Spelling) :
    ∃ first tail, s.text.toList = first :: tail ∧ Bracket.ofOpening? first = none
      ∧ Bracket.ofClosing? first = none ∧ beginsGap (first :: tail) = false
      ∧ ∃ p, Cursor.readAtom first ⟨tail, Position.start.step first⟩
          = (.ok s.item.expression, ⟨[], p⟩) := by
  obtain ⟨hskip, p, hrun⟩ := s.readWithin_self
  have hbegins := Cursor.not_begins_skipGap (Cursor.ofText s.text.toList)
  rw [Cursor.readWithin_eq, hskip] at hrun
  rw [hskip] at hbegins
  have hstep := Cursor.readStep_stepsTo [] (Cursor.ofText s.text.toList)
  generalize Cursor.readStep [] (Cursor.ofText s.text.toList) = step at hstep hrun
  unfold Cursor.ofText at hstep hbegins
  generalize s.text.toList = cs at hstep hbegins
  cases hstep with
  | atEnd => cases hrun
  | opening hopen hdepth =>
    -- a bracket would make it a group
    obtain ⟨b, items, hgroup⟩ := Cursor.group_of_readWithin (by simp) hrun
    have hnot := s.not_group
    rw [Option.some.inj hgroup] at hnot
    cases hnot
  | tooDeep => cases hrun
  | unexpected => cases hrun
  | @atom _ first tail _ e stop hopen hclose hatom =>
    cases hrun
    exact ⟨first, tail, rfl, hopen, hclose, hbegins, p, hatom⟩
  | cutOff => cases hrun

/-- A spelling whose first word is a marker is that marker. -/
theorem eq_of_word (s : Spelling) {first : Char} {tail rest marker : List Char} {p p' : Position}
    (htext : s.text.toList = first :: tail) (hfirst : marker.head? = some '_')
    (hatom : Cursor.readAtom first ⟨tail ++ rest, p⟩ = (.ok s.item.expression, ⟨rest, p'⟩))
    (hword : first :: ((tail ++ rest).takeWhile fun ch => !endsWord ch) = marker) :
    s.text.toList = marker := by
  have hunder : first = '_' := by
    rw [← hword] at hfirst
    exact Option.some.inj hfirst
  have hread : Cursor.readWord first ⟨tail ++ rest, p⟩ = (.ok s.item.expression, ⟨rest, p'⟩) := by
    rw [← hatom, hunder]
    rfl
  have hdrop : (tail ++ rest).dropWhile (fun ch => !endsWord ch) = rest := by
    unfold Cursor.readWord at hread
    exact congrArg Cursor.rest (Prod.mk.inj hread).2
  have hsplit : (tail ++ rest).takeWhile (fun ch => !endsWord ch)
      ++ (tail ++ rest).dropWhile (fun ch => !endsWord ch) = tail ++ rest :=
    List.takeWhile_append_dropWhile
  rw [hdrop] at hsplit
  rw [htext, ← hword, List.append_cancel_right hsplit]

/-- **A spelling is read as its atom** inside any groups and at any place, in front of everything that
    ends a lone slash. -/
theorem readWithin_append (s : Spelling) (frames : List Frame) {rest : List Char}
    (hrest : standsAlone rest = true) (p : Position) :
    Cursor.readWithin frames ⟨s.text.toList ++ rest, p⟩
      = (ReadStep.deliver s.item.expression frames ⟨rest, p.advance s.text.toList⟩).run := by
  obtain ⟨first, tail, htext, hopen, hclose, hbegins, p', hself⟩ := s.readAtom_self
  have hself' : Cursor.readAtom first ⟨tail ++ [], Position.start.step first⟩
      = (.ok s.item.expression, ⟨[], p'⟩) := by
    rw [List.append_nil]
    exact hself
  -- the text behind the spelling comes first, the other place second
  have hfront := Cursor.readAtom_swap hself' (MayFollow.of_standsAlone hrest [])
  have hpar := Cursor.Parallel.refl (tail ++ rest) (Position.start.step first) (p.step first)
  obtain ⟨stop, hstop, hatom⟩ := Cursor.readAtom_relocate_eq hpar
    (fun hword => absurd (String.toList_inj.mp (s.eq_of_word htext rfl hfront hword)) s.not_line)
    (fun hword => absurd (String.toList_inj.mp (s.eq_of_word htext rfl hfront hword)) s.not_column)
    hfront
  have hreach := Cursor.readAtom_reaches first ⟨tail ++ rest, p.step first⟩
  rw [hatom] at hreach
  obtain ⟨taken, htaken, hpos⟩ := hreach
  have hstopRest : stop.rest = rest := hstop.1
  rw [hstopRest] at htaken
  have hstopEq : stop = ⟨rest, p.advance s.text.toList⟩ := by
    have htail : tail = taken := List.append_cancel_right htaken
    rw [htext, htail, Position.advance_cons, ← hstopRest]
    exact (Cursor.mk.injEq _ _ _ _).mpr ⟨rfl, hpos⟩
  rw [hstopEq] at hatom
  have hstep : Cursor.StepsTo frames ⟨first :: (tail ++ rest), p⟩ _ :=
    Cursor.StepsTo.atom hopen hclose hatom
  have hgap : Cursor.skipGap ⟨first :: (tail ++ rest), p⟩ = ⟨first :: (tail ++ rest), p⟩ :=
    Cursor.skipGap_of_not_begins hbegins
  rw [htext, List.cons_append, Cursor.readWithin_eq, hgap, hstep.readStep_eq, ← htext]

end Spelling

/-! ## Trees -/

namespace Tree

/-- What stands behind a tree ends a lone slash. -/
theorem standsAlone_behind {ts : List Tree} {gap more rest : List Char} (hgap : Gap gap)
    (hsep : gap = [] → ts = []) (hmore : WrittenAll ts more) (hrest : standsAlone rest = true) :
    standsAlone (gap ++ (more ++ rest)) = true := by
  apply hgap.standsAlone_append
  intro hnil
  rw [hsep hnil, WrittenAll] at hmore
  rw [hmore]
  exact hrest

mutual

/-- **A tree is read as its expression** inside any groups that leave room for it and at any place, in
    front of everything that ends a lone slash. -/
theorem readWithin_written (t : Tree) {cs : List Char} (h : t.Written cs) {frames : List Frame}
    (hdepth : frames.length + t.depth ≤ maxNesting) {rest : List Char}
    (hrest : standsAlone rest = true) (p : Position) :
    Cursor.readWithin frames ⟨cs ++ rest, p⟩
      = (ReadStep.deliver t.value frames ⟨rest, p.advance cs⟩).run := by
  cases t with
  | atom spelling =>
    rw [Written] at h
    subst h
    exact spelling.readWithin_append frames hrest p
  | group b items =>
    rw [Written] at h
    obtain ⟨lead, inner, hlead, hinner, rfl⟩ := h
    rw [depth] at hdepth
    have hroom : frames.length < maxNesting := by omega
    have hitems : (⟨b, []⟩ :: frames : List Frame).length + depths items ≤ maxNesting := by
      rw [List.length_cons]
      omega
    -- the last element stands in front of the closing bracket, which ends a lone slash
    have hclosing := readWithin_writtenAll items hinner hitems (b.standsAlone_closing rest)
      ((p.step b.opening).advance lead)
    simp only [List.cons_append, List.append_assoc, List.nil_append]
    rw [Cursor.readWithin_opening hroom, Cursor.readWithin_gap hlead, hclosing,
      Cursor.readWithin_closing]
    simp [Frame.close, value, Position.advance_append]

/-- Trees written one after the other are read into the innermost group. -/
theorem readWithin_writtenAll (ts : List Tree) {cs : List Char} (h : WrittenAll ts cs) {f : Frame}
    {outer : List Frame} (hdepth : (f :: outer).length + depths ts ≤ maxNesting) {rest : List Char}
    (hrest : standsAlone rest = true) (p : Position) :
    Cursor.readWithin (f :: outer) ⟨cs ++ rest, p⟩
      = Cursor.readWithin (⟨f.bracket, (values ts).reverse ++ f.items⟩ :: outer)
          ⟨rest, p.advance cs⟩ := by
  cases ts with
  | nil =>
    rw [WrittenAll] at h
    subst h
    rfl
  | cons t ts =>
    rw [WrittenAll] at h
    obtain ⟨own, gap, more, hown, hgap, hsep, hmore, rfl⟩ := h
    rw [depths] at hdepth
    have hfirst : (f :: outer).length + t.depth ≤ maxNesting := by omega
    have hothers : (f.push t.value :: outer).length + depths ts ≤ maxNesting := by
      rw [List.length_cons] at hdepth ⊢
      omega
    have hread := readWithin_written t hown hfirst (standsAlone_behind hgap hsep hmore hrest) p
    have hreadAll := readWithin_writtenAll ts hmore hothers hrest ((p.advance own).advance gap)
    rw [List.append_assoc, List.append_assoc, hread]
    show Cursor.readWithin (f.push t.value :: outer) _ = _
    rw [Cursor.readWithin_gap hgap, hreadAll]
    simp [Frame.push, values, Position.advance_append]

end

/-- Scanning trees written one after the other gives their expressions. -/
theorem scan_writtenAll (ts : List Tree) {cs : List Char} (h : WrittenAll ts cs)
    (hdepth : depths ts ≤ maxNesting) {lead : List Char} (hlead : Gap lead) (p : Position) :
    (Cursor.mk (lead ++ cs) p).scan.expressions = values ts
      ∧ (Cursor.mk (lead ++ cs) p).scan.fault = none := by
  induction ts generalizing cs lead p with
  | nil =>
    rw [WrittenAll] at h
    subst h
    have hnone : Cursor.readWithin [] ⟨lead ++ [], p⟩ = (.ok none, ⟨[], p.advance lead⟩) := by
      rw [Cursor.readWithin_gap hlead]
      exact Cursor.readWithin_nil_of_skipGap rfl
    rw [Cursor.scan_of_none hnone]
    exact ⟨rfl, rfl⟩
  | cons t ts ih =>
    rw [WrittenAll] at h
    obtain ⟨own, gap, more, hown, hgap, hsep, hmore, rfl⟩ := h
    rw [depths] at hdepth
    have hroom : ([] : List Frame).length + t.depth ≤ maxNesting := by
      rw [List.length_nil]
      omega
    have hfollow : standsAlone (gap ++ more) = true := by
      have hbehind := standsAlone_behind hgap hsep hmore (show standsAlone [] = true from rfl)
      rw [List.append_nil] at hbehind
      exact hbehind
    have hread : Cursor.readWithin [] ⟨lead ++ (own ++ (gap ++ more)), p⟩
        = (.ok (some t.value), ⟨gap ++ more, (p.advance lead).advance own⟩) := by
      rw [Cursor.readWithin_gap hlead, readWithin_written t hown hroom hfollow]
      rfl
    obtain ⟨hvalues, hfault⟩ := ih hmore (by omega) hgap ((p.advance lead).advance own)
    rw [Cursor.scan_of_some hread]
    refine ⟨?_, hfault⟩
    show t.value :: _ = t.value :: _
    exact congrArg (t.value :: ·) hvalues

/-- **Every rendering of a forest reads as its expressions.** -/
theorem scan_renders {forest : List Tree} (hdepth : depths forest ≤ maxNesting) {text : List Char}
    (h : Renders forest text) :
    (Cursor.ofText text).scan.expressions = values forest ∧ (Cursor.ofText text).scan.fault = none := by
  obtain ⟨lead, cs, hlead, hcs, rfl⟩ := h
  exact scan_writtenAll forest hcs hdepth hlead Position.start

theorem readAll_renders {forest : List Tree} (hdepth : depths forest ≤ maxNesting) {text : String}
    (h : Renders forest text.toList) :
    (Reader.ofText text).readAll.expressions = values forest
      ∧ (Reader.ofText text).readAll.error = none := by
  obtain ⟨hvalues, hfault⟩ := scan_renders hdepth h
  obtain ⟨hitems, _, herror⟩ := Reader.readAll_ofText text
  constructor
  · rw [← hvalues, Program.expressions, hitems, Scan.expressions]
  · rw [herror, hfault, Option.map_none]

end Tree

end FormScript
