import FormScript.Proofs.Reading.Places

/-!
# Nesting of brackets

`Inside` says which brackets of an expression are open at a place of its text, whatever their number: gaps
and atoms are passed over, with all the brackets in comments, strings and regular expressions. The reader
follows these places as long as no more than `maxNesting` brackets are open, and fails because of the
nesting exactly if an opening bracket stands where so many are open (`Reader.read_tooDeep_iff`). So no
expression that is read nests deeper than that.
-/

namespace FormScript

namespace Sexp

mutual

/-- How deep the groups of an expression nest. -/
def nesting : Sexp → Nat
  | .group _ items => nestings items + 1
  | _ => 0

/-- How deep the groups of expressions nest. -/
def nestings : List Sexp → Nat
  | [] => 0
  | e :: es => max (nesting e) (nestings es)

end

theorem nesting_atom {e : Sexp} (h : e.elements? = none) : e.nesting = 0 := by
  cases e with
  | group b items => cases h
  | number x => simp [nesting]
  | symbol name => simp [nesting]
  | string content => simp [nesting]
  | regex pattern flags => simp [nesting]

theorem nestings_le_iff {es : List Sexp} {n : Nat} : nestings es ≤ n ↔ ∀ e ∈ es, e.nesting ≤ n := by
  induction es with
  | nil => simp [nestings]
  | cons e es ih => rw [nestings, Nat.max_le, ih, List.forall_mem_cons]

theorem nesting_group_le_iff {b : Bracket} {items : List Sexp} {n : Nat} :
    (group b items).nesting ≤ n + 1 ↔ ∀ e ∈ items, e.nesting ≤ n := by
  rw [nesting, Nat.add_le_add_iff_right, nestings_le_iff]

end Sexp

/-- What is read inside `n` groups nests as deep as the limit leaves room for. -/
theorem reads_nesting : Reads fun n e => n + e.nesting ≤ maxNesting where
  atom := by
    rintro n a hn ⟨cs, hcs⟩
    rw [Sexp.nesting_atom hcs.not_group]
    exact hn
  group := by
    intro n b items hn hitems
    have hle : (Sexp.group b items).nesting ≤ maxNesting - (n + 1) + 1 := by
      rw [Sexp.nesting_group_le_iff]
      intro e he
      have hroom := hitems e he
      omega
    omega

/-! ## Atoms that are passed over -/

/-- Reading passes over the atom `x` in front of `rest`: it is the longest there, and if it begins with a
    slash and is no regular expression, then it stands alone. -/
def Passes (x rest : List Char) : Prop :=
  ∃ a, Lexeme x a ∧ Longest x rest
    ∧ (x.head? = some '/' → standsAlone rest = true ∨ ∃ pattern flags, a = .regex pattern flags)

theorem Lexeme.slash_mem {cs : List Char} {pattern flags : String}
    (h : Lexeme cs (.regex pattern flags)) : ∃ tail, cs = '/' :: tail ∧ '/' ∈ tail := by
  generalize ha : Sexp.regex pattern flags = a at h
  cases h with
  | string => cases ha
  | divide => cases ha
  | divideBy => cases ha
  | regex => exact ⟨_, rfl, by simp⟩
  | @word first tail stop =>
    rcases wordValue_cases (first :: tail) stop with ⟨x, hx⟩ | hx
    · rw [hx] at ha
      cases ha
    · rw [hx] at ha
      cases ha

/-- There is one longest lexeme at a place. -/
theorem Longest.unique {x y rest rest' : List Char} {a b : Sexp} (h : x ++ rest = y ++ rest')
    (hx : Lexeme x a) (hy : Lexeme y b) (hlongest : Longest x rest) (hlongest' : Longest y rest') :
    rest = rest' := by
  rcases List.append_eq_append_iff.mp h with ⟨z, rfl, rfl⟩ | ⟨z, rfl, rfl⟩
  · rw [hlongest z b (List.prefix_append _ _) hy, List.nil_append]
  · rw [hlongest' z a (List.prefix_append _ _) hx, List.nil_append]

/-- A slash that stands alone opens no regular expression, and neither does it with `=`. -/
theorem not_opensRegex_of_standsAlone {rest : List Char} (h : standsAlone rest = true) :
    opensRegex rest = false ∧ opensRegex ('=' :: rest) = false := by
  cases rest with
  | nil => decide
  | cons c cs =>
    have hends : endsSlash c = true := h
    cases cs with
    | nil => simp [opensRegex, hends]
    | cons d cs => simp [opensRegex, hends]

/-- A lexeme that ends with its delimiter does so in front of any text. -/
theorem splitDelimited_append {delimiter : Char} (hd : delimiter ≠ '\\') {cs body flags : List Char}
    (h : splitDelimited delimiter cs = some (body, flags)) (rest : List Char) :
    splitDelimited delimiter (cs ++ rest) = some (body, flags ++ rest) := by
  have hswap := splitDelimited_swap hd h (flags ++ rest)
  rw [splitDelimited_eq_append h, List.append_assoc, List.append_assoc, List.singleton_append]
  exact hswap

/-- What passes is not cut off. -/
theorem Passes.readAtom_ok {first : Char} {tail rest : List Char} (h : Passes (first :: tail) rest)
    (p : Position) : ∃ a stop, Cursor.readAtom first ⟨tail ++ rest, p⟩ = (.ok a, stop) := by
  obtain ⟨a, hlexeme, _, halone⟩ := h
  cases hread : Cursor.readAtom first ⟨tail ++ rest, p⟩ with
  | mk outcome stop =>
    cases outcome with
    | ok a' => exact ⟨a', stop, rfl⟩
    | error fault =>
      obtain ⟨hsplit, ⟨hquote, _⟩ | ⟨rfl, hopens, _⟩⟩ := Cursor.readAtom_error hread
      · have hne : first ≠ '\\' := by
          rcases hquote with rfl | rfl <;> decide
        obtain ⟨body, hbody⟩ := hlexeme.delimited hquote
        rw [splitDelimited_append hne hbody] at hsplit
        cases hsplit
      · have hstands : '/' ∉ tail → standsAlone rest = true := by
          intro hnot
          rcases halone rfl with hstands | ⟨pattern, flags, rfl⟩
          · exact hstands
          · obtain ⟨tail', htail, hmem⟩ := hlexeme.slash_mem
            rw [List.cons.injEq] at htail
            exact absurd (htail.2 ▸ hmem) hnot
        rcases hlexeme.slashed with rfl | rfl | ⟨_, body, flags, hbody, _⟩
        · have hnot := (not_opensRegex_of_standsAlone (hstands List.not_mem_nil)).1
          exact absurd hopens (by simp [hnot])
        · have hnot := (not_opensRegex_of_standsAlone (hstands (by decide))).2
          exact absurd hopens (by simp [hnot])
        · rw [splitDelimited_append (by decide) hbody] at hsplit
          cases hsplit

/-- **What passes is read as one atom.** -/
theorem Passes.readWithin_eq {x rest : List Char} (h : Passes x rest) (f : Frame) (outer : List Frame)
    (p : Position) : ∃ a p', Cursor.readWithin (f :: outer) ⟨x ++ rest, p⟩
      = Cursor.readWithin (f.push a :: outer) ⟨rest, p'⟩ := by
  have hpasses := h
  obtain ⟨b, hlexeme, hlongest, _⟩ := h
  obtain ⟨first, tail, rfl, hopen, hclose, hgap⟩ := hlexeme.first_char
  obtain ⟨a, stop, hread⟩ := hpasses.readAtom_ok (p.step first)
  obtain ⟨lexeme, hcut, hlexeme', hlongest'⟩ :=
    Cursor.readAtom_lexed hopen hclose (hgap (tail ++ rest)) hread
  have hrest : rest = stop.rest := Longest.unique hcut hlexeme hlexeme' hlongest hlongest'
  have hstep : Cursor.StepsTo (f :: outer) ⟨first :: tail ++ rest, p⟩
      (ReadStep.deliver a (f :: outer) stop) := Cursor.StepsTo.atom hopen hclose hread
  refine ⟨a, stop.position, ?_⟩
  rw [Cursor.readWithin_eq, Cursor.skipGap_of_not_begins (hgap (tail ++ rest)), hstep.readStep_eq, hrest]
  rfl

/-- **What is read as an atom passes.** -/
theorem Cursor.readAtom_passes {first : Char} {tail : List Char} {p : Position} {a : Sexp} {stop : Cursor}
    (hopen : Bracket.ofOpening? first = none) (hclose : Bracket.ofClosing? first = none)
    (hgap : beginsGap (first :: tail) = false)
    (h : readAtom first ⟨tail, p⟩ = (.ok a, stop)) :
    ∃ x, first :: tail = x ++ stop.rest ∧ Passes x stop.rest := by
  obtain ⟨x, hcut, hlexeme, hlongest⟩ := readAtom_lexed hopen hclose hgap h
  refine ⟨x, hcut, a, hlexeme, hlongest, ?_⟩
  intro hslash
  have hfirst : first = '/' := by
    obtain ⟨more, rfl⟩ := List.head?_eq_some_iff.mp hslash
    exact (List.cons.inj hcut).1
  subst hfirst
  have hread : readSlash ⟨tail, p⟩ = (.ok a, stop) := h
  rcases slash_cases tail with halone | ⟨rest, rfl, halone⟩ | hregex
  · rw [readSlash_of_standsAlone halone] at hread
    cases hread
    exact .inl halone
  · rw [readSlash_of_equals rfl halone] at hread
    cases hread
    exact .inl halone
  · rw [readSlash_of_opensRegex hregex, readRegex] at hread
    cases hsplit : splitDelimited '/' tail with
    | none =>
      simp only [hsplit] at hread
      cases hread
    | some result =>
      simp only [hsplit] at hread
      cases hread
      exact .inr ⟨_, _, rfl⟩

/-! ## Places inside an expression -/

/-- In an expression that begins with the text `cs`, the brackets `bs` are open in front of `rest`, the
    innermost first. The expression ends where the outermost of them is closed. -/
inductive Inside (cs : List Char) : List Bracket → List Char → Prop where
  | first {b : Bracket} {rest : List Char} : cs = b.opening :: rest → Inside cs [b] rest
  | gap {bs : List Bracket} {gap rest : List Char} : Inside cs bs (gap ++ rest) → Gap gap →
      Inside cs bs rest
  | atom {bs : List Bracket} {x rest : List Char} : Inside cs bs (x ++ rest) → Passes x rest →
      Inside cs bs rest
  | opening {b : Bracket} {bs : List Bracket} {rest : List Char} : Inside cs bs (b.opening :: rest) →
      Inside cs (b :: bs) rest
  | closing {b outer : Bracket} {bs : List Bracket} {rest : List Char} :
      Inside cs (b :: outer :: bs) (b.closing :: rest) → Inside cs (outer :: bs) rest

/-- At `place`, in an expression that begins with the text `cs`, an opening bracket is met while `n`
    brackets of the expression are open. -/
def OpensWithin (n : Nat) (cs place : List Char) : Prop :=
  ∃ bs b rest, bs.length = n ∧ place = Bracket.opening b :: rest ∧ Inside cs bs place

namespace Cursor

theorem readWithin_tooDeep {frames : List Frame} (hdepth : maxNesting ≤ frames.length) (b : Bracket)
    (cs : List Char) (p : Position) :
    readWithin frames ⟨b.opening :: cs, p⟩ = (.error .nestedTooDeeply, ⟨b.opening :: cs, p⟩) := by
  have hstep : StepsTo frames ⟨b.opening :: cs, p⟩ _ := StepsTo.tooDeep b.ofOpening?_opening hdepth
  rw [readWithin_eq, skipGap_of_not_begins (b.not_beginsGap_opening cs), hstep.readStep_eq]
  rfl

end Cursor

open Cursor

/-- **The reader follows the places inside an expression**, unless it has met too many brackets before:
    it has one open group for each open bracket. -/
theorem Inside.run {cs : List Char} {bs : List Bracket} {rest : List Char} (h : Inside cs bs rest)
    (p : Position) :
    (readWithin [] ⟨cs, p⟩).1 = .error .nestedTooDeeply
      ∨ ∃ f outer p', (f :: outer).map Frame.bracket = bs
        ∧ readWithin [] ⟨cs, p⟩ = readWithin (f :: outer) ⟨rest, p'⟩ := by
  induction h with
  | @first b rest hcs =>
    rw [hcs, readWithin_opening (by decide)]
    exact .inr ⟨⟨b, []⟩, [], _, rfl, rfl⟩
  | gap _ hgap ih =>
    rcases ih with hfails | ⟨f, outer, p', hbrackets, hrun⟩
    · exact .inl hfails
    · exact .inr ⟨f, outer, _, hbrackets, hrun.trans (readWithin_gap hgap _ _ p')⟩
  | atom _ hpasses ih =>
    rcases ih with hfails | ⟨f, outer, p', hbrackets, hrun⟩
    · exact .inl hfails
    · obtain ⟨a, stop, hatom⟩ := hpasses.readWithin_eq f outer p'
      exact .inr ⟨f.push a, outer, stop, hbrackets, hrun.trans hatom⟩
  | @opening b bs rest _ ih =>
    rcases ih with hfails | ⟨f, outer, p', hbrackets, hrun⟩
    · exact .inl hfails
    · by_cases hdepth : (f :: outer).length < maxNesting
      · refine .inr ⟨⟨b, []⟩, f :: outer, _, ?_, hrun.trans (readWithin_opening hdepth b rest p')⟩
        rw [List.map_cons, hbrackets]
      · rw [hrun, readWithin_tooDeep (Nat.le_of_not_lt hdepth)]
        exact .inl rfl
  | @closing b inner bs rest _ ih =>
    rcases ih with hfails | ⟨f, outer, p', hbrackets, hrun⟩
    · exact .inl hfails
    · obtain ⟨rfl, houter⟩ := List.cons.inj hbrackets
      cases outer with
      | nil => cases houter
      | cons g outer =>
        exact .inr ⟨g.push f.close, outer, _, houter, hrun.trans (readWithin_closing f _ rest p')⟩

/-- Where an opening bracket is met inside so many, reading fails. -/
theorem OpensWithin.run {cs place : List Char} (h : OpensWithin maxNesting cs place) (p : Position) :
    (readWithin [] ⟨cs, p⟩).1 = .error .nestedTooDeeply := by
  obtain ⟨bs, b, rest, hlength, rfl, hinside⟩ := h
  rcases hinside.run p with hfails | ⟨f, outer, p', hbrackets, hrun⟩
  · exact hfails
  · have hdepth : maxNesting = (f :: outer).length := by
      rw [← hlength, ← hbrackets, List.length_map]
    rw [hrun, readWithin_tooDeep (Nat.le_of_eq hdepth)]

/-- The open groups are the brackets that are open in front of `rest`; at the beginning there are none. -/
def Tracks (cs : List Char) (frames : List Frame) (rest : List Char) : Prop :=
  frames = [] ∧ rest = cs ∨ Inside cs (frames.map Frame.bracket) rest

/-- A step stays inside the expression, and if it fails because of the nesting, it does so in front of an
    opening bracket that is met inside too many. -/
def StepTracks (cs : List Char) : ReadStep Cursor → Prop
  | .done (.error .nestedTooDeeply) stop => OpensWithin maxNesting cs stop.rest
  | .done _ _ => True
  | .more frames next => frames.length ≤ maxNesting ∧ Inside cs (frames.map Frame.bracket) next.rest

/-- An expression goes into the innermost group that is open, or is the result. -/
theorem stepTracks_deliver {cs : List Char} {e : Sexp} {frames : List Frame} {stop : Cursor}
    (hdepth : frames.length ≤ maxNesting)
    (h : frames ≠ [] → Inside cs (frames.map Frame.bracket) stop.rest) :
    StepTracks cs (ReadStep.deliver e frames stop) := by
  cases frames with
  | nil => exact trivial
  | cons f outer => exact ⟨hdepth, h (List.cons_ne_nil f outer)⟩

/-- **One step.** The place it begins at stands behind all gaps. -/
theorem readStep_tracks {cs : List Char} {frames : List Frame} {c : Cursor}
    (hgap : beginsGap c.rest = false) (hdepth : frames.length ≤ maxNesting)
    (h : c.rest ≠ [] → Tracks cs frames c.rest) : StepTracks cs (readStep frames c) := by
  have hstep := readStep_stepsTo frames c
  generalize readStep frames c = s at hstep
  cases hstep with
  | atEnd =>
    cases frames with
    | nil => exact trivial
    | cons f outer => exact trivial
  | @opening _ first tail p b hopen hroom =>
    refine ⟨hroom, ?_⟩
    rcases h (by simp) with ⟨rfl, hcs⟩ | hinside
    · rw [Bracket.eq_opening hopen] at hcs
      exact .first hcs.symm
    · rw [Bracket.eq_opening hopen] at hinside
      exact .opening hinside
  | @tooDeep _ first tail p b hopen hfull =>
    rcases h (by simp) with ⟨rfl, _⟩ | hinside
    · exact absurd hfull (by decide)
    · refine ⟨_, b, tail, ?_, ?_, hinside⟩
      · rw [List.length_map]
        exact Nat.le_antisymm hdepth hfull
      · rw [Bracket.eq_opening hopen]
  | @closing f outer first tail p _ hclose =>
    refine stepTracks_deliver (Nat.le_of_succ_le hdepth) ?_
    intro houter
    rcases h (by simp) with ⟨hnil, _⟩ | hinside
    · cases hnil
    · cases outer with
      | nil => exact absurd rfl houter
      | cons g outer =>
        rw [Bracket.eq_closing hclose] at hinside
        exact .closing hinside
  | unexpected => exact trivial
  | @atom _ first tail p e stop hopen hclose hatom =>
    refine stepTracks_deliver hdepth ?_
    intro hframes
    rcases h (by simp) with ⟨hnil, _⟩ | hinside
    · exact absurd hnil hframes
    · obtain ⟨x, hcut, hpasses⟩ := readAtom_passes hopen hclose hgap hatom
      rw [hcut] at hinside
      exact .atom hinside hpasses
  | cutOff _ _ hatom =>
    obtain ⟨_, ⟨_, rfl⟩ | ⟨_, _, rfl⟩⟩ := readAtom_error hatom
    · exact trivial
    · exact trivial

/-- A gap is passed over, unless the text ends in it. -/
theorem Tracks.skipGap {cs : List Char} {frames : List Frame} {c : Cursor}
    (h : Inside cs (frames.map Frame.bracket) c.rest) (hne : c.skipGap.rest ≠ []) :
    Tracks cs frames c.skipGap.rest := by
  obtain ⟨gap, hrest, _, _, hgap⟩ := c.skipGap_split
  rw [hrest] at h
  exact .inr (.gap h (hgap hne))

/-- **A run that fails because of the nesting** stops where an opening bracket is met inside too many. -/
theorem readWithin_tracks {cs : List Char} {frames : List Frame} {c stop : Cursor}
    (hdepth : frames.length ≤ maxNesting) (h : c.skipGap.rest ≠ [] → Tracks cs frames c.skipGap.rest)
    (hrun : c.readWithin frames = (.error .nestedTooDeeply, stop)) :
    OpensWithin maxNesting cs stop.rest := by
  induction frames, c using readWithin.induct with
  | case1 frames c outcome stop' hstep =>
    have htracks := readStep_tracks c.not_begins_skipGap hdepth h
    rw [Cursor.readWithin_eq, hstep] at hrun
    rw [hstep] at htracks
    cases hrun
    exact htracks
  | case2 frames c frames' next hstep ih =>
    have htracks := readStep_tracks c.not_begins_skipGap hdepth h
    rw [Cursor.readWithin_eq, hstep] at hrun
    rw [hstep] at htracks
    exact ih htracks.1 (Tracks.skipGap htracks.2) hrun

namespace Reader

variable {r after : Reader}

/-- A reader that fails because of the nesting stands on the bracket. -/
theorem opensWithin_of_read
    (h : r.read = (.error (.ofFault .nestedTooDeeply after.source.describe), after)) :
    OpensWithin maxNesting r.source.cursor.skipGap.rest after.rest := by
  obtain ⟨_, fault, _, hrun, hfault⟩ := read_error h
  rw [← ReadError.ofFault_injective hfault] at hrun
  exact readWithin_tracks (Nat.zero_le _) (fun _ => .inl ⟨rfl, rfl⟩) hrun

/-- **Reading fails because of the nesting exactly if an opening bracket is met inside too many.** -/
theorem read_tooDeep_iff (r : Reader) :
    (∃ after : Reader, r.read = (.error (.ofFault .nestedTooDeeply after.source.describe), after))
      ↔ ∃ place, OpensWithin maxNesting r.source.cursor.skipGap.rest place := by
  constructor
  · rintro ⟨after, h⟩
    exact ⟨after.rest, opensWithin_of_read h⟩
  · rintro ⟨place, h⟩
    have hfails : (r.source.cursor.readWithin []).1 = .error .nestedTooDeeply := by
      rw [← readWithin_skipGap]
      exact h.run r.source.cursor.skipGap.position
    obtain ⟨n, _, hread⟩ := r.read_eq
    rw [hfails] at hread
    exact ⟨⟨r.source.advanceBy n, r.source.cursor.skipGap.position⟩, hread⟩

/-- An expression that is read does not nest deeper than the limit. -/
theorem nesting_le_of_read {e : Sexp} (h : r.read = (.ok (some e), after)) : e.nesting ≤ maxNesting := by
  obtain ⟨_, _, hrun, _⟩ := read_ok h
  have houtside : Reads.Holds (fun n e => n + e.nesting ≤ maxNesting) [] := trivial
  have hle := reads_nesting.run houtside hrun
  omega

theorem nesting_le_of_readAll (r : Reader) : ∀ e ∈ r.readAll.expressions, e.nesting ≤ maxNesting := by
  obtain ⟨_, _, hitems, _⟩ := r.readAll_scan
  rw [Program.expressions, hitems]
  intro e he
  have hle := reads_nesting.scan r.source.cursor e he
  omega

end Reader

end FormScript
