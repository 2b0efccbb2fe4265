import FormScript.Proofs.Reading.Mirror

/-!
# The value of a string

A string keeps its escapes as they were written, and the literal it lowers to passes them on. What the
literal stands for is a sequence of UTF-16 code units, told by the escape rules of ECMAScript
(`Literal.value?`), in strict code and in sloppy code. The content of a string stands for a value by the
same rules, with the one difference that a double quote and a line end may stand bare in it.

The literal keeps the value (`literal_keeps_value`), with one exception. A backslash in front of a line
end continues the line, and CR LF is one line end; but the literal is made of pairs of a backslash and
one character, so that in it the LF behind such a CR is a bare line end and is written `\n`. The value of
the literal then has one line feed more for every such line end.
-/

namespace FormScript

namespace Literal

/-! ## Escapes -/

/-- The code units of a code point: one, or a pair of surrogates beyond the first plane. -/
def codeUnits (n : Nat) : List Nat :=
  if n < 0x10000 then [n]
  else [0xd800 + (n - 0x10000) / 0x400, 0xdc00 + (n - 0x10000) % 0x400]

/-- The value of a hexadecimal digit. -/
def hexValue? (c : Char) : Option Nat :=
  if c.isDigit then some (c.toNat - '0'.toNat)
  else if 'a' ≤ c ∧ c ≤ 'f' then some (c.toNat - 'a'.toNat + 10)
  else if 'A' ≤ c ∧ c ≤ 'F' then some (c.toNat - 'A'.toNat + 10)
  else none

/-- The number that hexadecimal digits stand for. -/
def hexNumber? (digits : List Char) : Option Nat :=
  digits.foldlM (fun n c => (hexValue? c).map (16 * n + ·)) 0

/-- An escape by a fixed number of hexadecimal digits: the code units, and how many characters it takes
    of those that follow. -/
def hexEscape? (count : Nat) (more : List Char) : Option (List Nat × Nat) :=
  if count ≤ more.length then (hexNumber? (more.take count)).map fun unit => ([unit], count) else none

/-- An escape by the digits of a code point between braces, of which the first has been passed. -/
def codePointEscape? (more : List Char) : Option (List Nat × Nat) :=
  let digits := more.takeWhile fun c => (hexValue? c).isSome
  if digits ≠ [] ∧ more[digits.length]? = some '\x7d' then
    (hexNumber? digits).bind fun n =>
      if n ≤ 0x10ffff then some (codeUnits n, digits.length + 2) else none
  else none

def isOctalDigit (c : Char) : Bool := '0' ≤ c && c ≤ '7'

/-- An escape that begins with a digit. Strict code has `\0` only, where no digit follows; sloppy code
    has octal numbers up to 255 besides, and the digits that are not octal stand for themselves. -/
def digitEscape? (strict : Bool) (c : Char) (more : List Char) : Option (List Nat × Nat) :=
  if c = '0' ∧ more.head?.any Char.isDigit = false then some ([0], 0)
  else if strict then none
  else if isOctalDigit c = false then some ([c.toNat], 0)
  else
    let digits := (more.takeWhile isOctalDigit).take (if c ≤ '3' then 2 else 1)
    some ([(c :: digits).foldl (fun n d => 8 * n + (d.toNat - '0'.toNat)) 0], digits.length)

/-- What a character without digits behind it stands for after a backslash; most stand for themselves. -/
def singleEscape (c : Char) : List Nat :=
  if c = 'b' then [0x08]
  else if c = 't' then [0x09]
  else if c = 'n' then [0x0a]
  else if c = 'v' then [0x0b]
  else if c = 'f' then [0x0c]
  else if c = 'r' then [0x0d]
  else codeUnits c.toNat

/-- The escape with `c` behind the backslash and `more` behind `c`: its code units, and how many
    characters it takes of `more`. -/
def escape? (strict : Bool) (c : Char) (more : List Char) : Option (List Nat × Nat) :=
  if c = 'x' then hexEscape? 2 more
  else if c = 'u' then
    if more.head? = some '\x7b' then codePointEscape? more.tail else hexEscape? 4 more
  else if c.isDigit then digitEscape? strict c more
  else some (singleEscape c, 0)

/-- The characters that an escape can take, or look at, behind its first one. -/
def continuesEscape (c : Char) : Bool := (hexValue? c).isSome || c = '\x7b' || c = '\x7d'

/-! ## Values -/

def isLineEnd (c : Char) : Bool := c = '\n' || c = '\r' || c = '\u2028' || c = '\u2029'

/-- The characters that a literal cannot hold as they are. -/
def needsEscape (c : Char) : Bool := c = '"' || isLineEnd c

/-- What is left behind the line end `c`; CR LF is one line end. -/
def afterLineEnd (c : Char) (rest : List Char) : List Char :=
  if c = '\r' ∧ rest.head? = some '\n' then rest.tail else rest

theorem length_afterLineEnd_le (c : Char) (rest : List Char) :
    (afterLineEnd c rest).length ≤ rest.length := by
  unfold afterLineEnd
  split
  · rw [List.length_tail]
    exact Nat.sub_le _ _
  · exact Nat.le_refl _

/-- The code units that a text with escapes stands for; `none` if an escape is not valid. With `bare`, a
    double quote and a line end stand for themselves, without it they are not allowed. A backslash in front
    of a line end continues the line: the two stand for nothing. -/
def value? (strict bare : Bool) : List Char → Option (List Nat)
  | [] => some []
  | [c] => if c = '\\' ∨ (needsEscape c = true ∧ bare = false) then none else some (codeUnits c.toNat)
  | c :: d :: cs =>
    if c = '\\' then
      if isLineEnd d then value? strict bare (afterLineEnd d cs)
      else
        match escape? strict d (cs.takeWhile continuesEscape) with
        | none => none
        | some (units, taken) => (value? strict bare (cs.drop taken)).map (units ++ ·)
    else if needsEscape c = true ∧ bare = false then none
    else (value? strict bare (d :: cs)).map (codeUnits c.toNat ++ ·)
termination_by cs => cs.length
decreasing_by
  · have := length_afterLineEnd_le d cs
    simp only [List.length_cons]
    omega
  · simp only [List.length_cons, List.length_drop]
    omega
  · simp

/-- The value of a text that is one double-quoted literal. -/
def literalValue? (strict : Bool) (text : List Char) : Option (List Nat) :=
  match text with
  | '"' :: rest =>
    match splitDelimited '"' rest with
    | some (content, []) => value? strict false content
    | _ => none
  | _ => none

/-- How many lines are continued at a CR LF. -/
def crlfContinuations : List Char → Nat
  | c :: d :: cs =>
    if c = '\\' then
      (if d = '\r' ∧ cs.head? = some '\n' then 1 else 0) + crlfContinuations cs
    else crlfContinuations (d :: cs)
  | _ => 0

/-! ## How values are made up -/

section Equations

variable {strict bare : Bool}

theorem value?_bare {c : Char} (hc : c ≠ '\\') (hallowed : needsEscape c = false ∨ bare = true)
    (cs : List Char) :
    value? strict bare (c :: cs) = (value? strict bare cs).map (codeUnits c.toNat ++ ·) := by
  have hnot : ¬ (needsEscape c = true ∧ bare = false) := by
    rintro ⟨hneeds, hbare⟩
    rcases hallowed with hfree | hbare'
    · rw [hfree] at hneeds
      cases hneeds
    · rw [hbare'] at hbare
      cases hbare
  cases cs with
  | nil => simp [value?, hc, hnot]
  | cons d cs => simp [value?, hc, hnot]

theorem value?_continuation {d : Char} (hd : isLineEnd d = true) (cs : List Char) :
    value? strict bare ('\\' :: d :: cs) = value? strict bare (afterLineEnd d cs) := by
  rw [value?, if_pos rfl, if_pos hd]

theorem value?_escape {d : Char} (hd : isLineEnd d = false) {cs : List Char} {units : List Nat}
    {taken : Nat} (h : escape? strict d (cs.takeWhile continuesEscape) = some (units, taken)) :
    value? strict bare ('\\' :: d :: cs) = (value? strict bare (cs.drop taken)).map (units ++ ·) := by
  rw [value?, if_pos rfl, if_neg (by simp [hd]), h]

end Equations

/-- An escape takes no more than there is. -/
theorem escape?_le {strict : Bool} {c : Char} {more : List Char} {units : List Nat} {taken : Nat}
    (h : escape? strict c more = some (units, taken)) : taken ≤ more.length := by
  have hhex : ∀ {count : Nat}, hexEscape? count more = some (units, taken) → taken ≤ more.length := by
    intro count hcount
    unfold hexEscape? at hcount
    split at hcount
    · obtain ⟨unit, _, hpair⟩ := Option.map_eq_some_iff.mp hcount
      cases hpair
      assumption
    · cases hcount
  have hpoint : codePointEscape? more.tail = some (units, taken) → taken ≤ more.length := by
    intro hpoint
    unfold codePointEscape? at hpoint
    dsimp only at hpoint
    split at hpoint
    · rename_i hbraces
      obtain ⟨n, _, hn⟩ := Option.bind_eq_some_iff.mp hpoint
      split at hn
      · cases hn
        obtain ⟨hlt, _⟩ := List.getElem?_eq_some_iff.mp hbraces.2
        rw [List.length_tail] at hlt
        omega
      · cases hn
    · cases hpoint
  have hdigit : digitEscape? strict c more = some (units, taken) → taken ≤ more.length := by
    intro hdigit
    unfold digitEscape? at hdigit
    split_ifs at hdigit
    · cases hdigit
      exact Nat.zero_le _
    · cases hdigit
      exact Nat.zero_le _
    all_goals
      cases hdigit
      exact (List.length_take_le' _ _).trans (List.takeWhile_prefix _).length_le
  unfold escape? at h
  split_ifs at h
  · exact hhex h
  · exact hpoint h
  · exact hhex h
  · exact hdigit h
  · cases h
    exact Nat.zero_le _

/-! ## Bodies of literals -/

theorem escapeBare_of_not_needs {c : Char} (h : needsEscape c = false) : escapeBare c = [c] := by
  simp only [needsEscape, isLineEnd, Bool.or_eq_false_iff, decide_eq_false_iff_not] at h
  simp [escapeBare, h]

theorem body_cons {c : Char} (hc : c ≠ '\\') (cs : List Char) :
    body (c :: cs) = escapeBare c ++ body cs := by
  cases cs with
  | nil => simp [body, hc]
  | cons d cs => simp [body, hc]

theorem body_pair (d : Char) (cs : List Char) : body ('\\' :: d :: cs) = '\\' :: d :: body cs := by
  simp [body]

/-- What an escape can take stands in a literal as it is. -/
theorem plain_of_continuesEscape {c : Char} (h : continuesEscape c = true) :
    c ≠ '\\' ∧ needsEscape c = false := by
  have hne : ∀ d : Char, continuesEscape d = false → c ≠ d := fun _ hd => ne_of_class h hd
  refine ⟨hne _ (by decide), ?_⟩
  simp only [needsEscape, isLineEnd, Bool.or_eq_false_iff, decide_eq_false_iff_not]
  exact ⟨hne _ (by decide), ⟨⟨hne _ (by decide), hne _ (by decide)⟩, hne _ (by decide)⟩,
    hne _ (by decide)⟩

/-- What a literal has for a character begins with a backslash or is the character. -/
theorem head_escapeBare (c : Char) :
    ∃ d ds, escapeBare c = d :: ds ∧ (d = '\\' ∨ (d = c ∧ needsEscape c = false)) := by
  by_cases hneeds : needsEscape c = true
  · simp only [needsEscape, isLineEnd, Bool.or_eq_true, decide_eq_true_eq] at hneeds
    rcases hneeds with rfl | ((rfl | rfl) | rfl) | rfl
    all_goals exact ⟨'\\', _, rfl, .inl rfl⟩
  · have hfree : needsEscape c = false := by simpa using hneeds
    exact ⟨c, [], escapeBare_of_not_needs hfree, .inr ⟨rfl, hfree⟩⟩

/-- A character stands in a literal as it is if it needs no escape. -/
theorem escapeBare_eq_iff {c : Char} : escapeBare c = [c] ↔ needsEscape c = false := by
  constructor
  · intro h
    obtain ⟨d, ds, heq, hd⟩ := head_escapeBare c
    have hdc : d = c := (List.cons.inj (heq.symm.trans h)).1
    rcases hd with hd | ⟨-, hfree⟩
    · rw [← hdc, hd]
      rfl
    · exact hfree
  · exact escapeBare_of_not_needs

/-- No bare line feed stands at the beginning of a body. -/
theorem head_body_ne_newline (cs : List Char) : (body cs).head? ≠ some '\n' := by
  cases cs with
  | nil => simp [body]
  | cons c cs =>
    by_cases hc : c = '\\'
    · subst hc
      cases cs with
      | nil => simp [body]
      | cons d ds => simp [body_pair]
    · obtain ⟨d, ds, hd, hhead⟩ := head_escapeBare c
      rw [body_cons hc, hd, List.cons_append, List.head?_cons]
      rcases hhead with rfl | ⟨rfl, hfree⟩
      · decide
      · rintro ⟨rfl⟩
        exact absurd hfree (by decide)

/-- The same characters continue an escape in a text and in its literal. -/
theorem takeWhile_body (cs : List Char) :
    (body cs).takeWhile continuesEscape = cs.takeWhile continuesEscape := by
  have hslash : continuesEscape '\\' = false := by decide
  induction cs with
  | nil => rfl
  | cons c cs ih =>
    by_cases hc : c = '\\'
    · subst hc
      cases cs with
      | nil => rfl
      | cons d ds => simp [body_pair, hslash]
    · rw [body_cons hc]
      by_cases hcontinues : continuesEscape c = true
      · have hplain := plain_of_continuesEscape hcontinues
        rw [escapeBare_of_not_needs hplain.2, List.singleton_append, List.takeWhile_cons,
          List.takeWhile_cons, ih]
      · obtain ⟨d, ds, hd, hhead⟩ := head_escapeBare c
        have hstop : continuesEscape d = false := by
          rcases hhead with rfl | ⟨rfl, _⟩
          · exact hslash
          · simpa using hcontinues
        rw [hd, List.cons_append, List.takeWhile_cons, List.takeWhile_cons]
        simp [hstop, hcontinues]

theorem body_plain_append {run : List Char} (h : ∀ c ∈ run, continuesEscape c = true)
    (cs : List Char) : body (run ++ cs) = run ++ body cs := by
  induction run with
  | nil => rfl
  | cons c run ih =>
    obtain ⟨hc, hrun⟩ := List.forall_mem_cons.mp h
    obtain ⟨hslash, hneeds⟩ := plain_of_continuesEscape hc
    rw [List.cons_append, body_cons hslash, escapeBare_of_not_needs hneeds, ih hrun]
    rfl

theorem crlfContinuations_cons {c : Char} (hc : c ≠ '\\') (cs : List Char) :
    crlfContinuations (c :: cs) = crlfContinuations cs := by
  cases cs with
  | nil => rfl
  | cons d cs => rw [crlfContinuations, if_neg hc]

theorem crlfContinuations_plain_append {run : List Char}
    (h : ∀ c ∈ run, continuesEscape c = true) (cs : List Char) :
    crlfContinuations (run ++ cs) = crlfContinuations cs := by
  induction run with
  | nil => rfl
  | cons c run ih =>
    obtain ⟨hc, hrun⟩ := List.forall_mem_cons.mp h
    rw [List.cons_append, crlfContinuations_cons (plain_of_continuesEscape hc).1, ih hrun]

/-- What an escape takes passes into the literal as it is. -/
theorem drop_of_escape {cs : List Char} {taken : Nat}
    (h : taken ≤ (cs.takeWhile continuesEscape).length) :
    (body cs).drop taken = body (cs.drop taken)
      ∧ crlfContinuations (cs.drop taken) = crlfContinuations cs := by
  have hrun : ∀ c ∈ cs.take taken, continuesEscape c = true := by
    intro c hc
    have hlength : (cs.take taken).length ≤ (cs.takeWhile continuesEscape).length :=
      (List.length_take_le _ _).trans h
    have hinitial : cs.take taken <+: cs.takeWhile continuesEscape :=
      List.prefix_of_prefix_length_le (List.take_prefix _ _) (List.takeWhile_prefix _) hlength
    exact List.all_eq_true.mp List.all_takeWhile c (hinitial.subset hc)
  have hcount : (cs.take taken).length = taken :=
    List.length_take_of_le (h.trans (List.takeWhile_prefix _).length_le)
  have hsplit : cs = cs.take taken ++ cs.drop taken := (List.take_append_drop taken cs).symm
  constructor
  · conv_lhs => rw [hsplit, body_plain_append hrun]
    exact List.drop_left' hcount
  · conv_rhs => rw [hsplit, crlfContinuations_plain_append hrun]

/-! ## The value of a literal -/

/-- An escape of four hexadecimal digits stands for the code unit they give. -/
theorem value?_hex {strict : Bool} {n : Nat} {a b d e : Char}
    (hmore : [a, b, d, e].all continuesEscape = true) (hnumber : hexNumber? [a, b, d, e] = some n)
    (hbrace : a ≠ '\x7b') (cs : List Char) :
    value? strict false ('\\' :: 'u' :: a :: b :: d :: e :: cs)
      = (value? strict false cs).map ([n] ++ ·) := by
  simp only [List.all_cons, List.all_nil, Bool.and_true, Bool.and_eq_true] at hmore
  obtain ⟨ha, hb, hd, he⟩ := hmore
  have hrun : (a :: b :: d :: e :: cs).takeWhile continuesEscape
      = a :: b :: d :: e :: cs.takeWhile continuesEscape := by
    simp [ha, hb, hd, he]
  have hescape : escape? strict 'u' ((a :: b :: d :: e :: cs).takeWhile continuesEscape)
      = some ([n], 4) := by
    rw [hrun]
    simp [escape?, hexEscape?, hbrace, hnumber]
  exact value?_escape (by decide) hescape

/-- What a bare quote or line end is written as stands for it. -/
theorem value?_escapeBare {strict : Bool} {c : Char} (hc : c ≠ '\\') (cs : List Char) :
    value? strict false (escapeBare c ++ cs)
      = (value? strict false cs).map (codeUnits c.toNat ++ ·) := by
  by_cases hneeds : needsEscape c = true
  · simp only [needsEscape, isLineEnd, Bool.or_eq_true, decide_eq_true_eq] at hneeds
    have hsingle {d : Char} (hd : isLineEnd d = false)
        (hescape : escape? strict d (cs.takeWhile continuesEscape) = some (codeUnits c.toNat, 0)) :
        value? strict false ('\\' :: d :: cs)
          = (value? strict false cs).map (codeUnits c.toNat ++ ·) := value?_escape hd hescape
    -- a quote, LF and CR have an escape of one character, the two separators one of five
    rcases hneeds with rfl | ((rfl | rfl) | rfl) | rfl
    · exact hsingle (by decide) rfl
    · exact hsingle (by decide) rfl
    · exact hsingle (by decide) rfl
    · exact value?_hex (by decide) (by decide) (by decide) cs
    · exact value?_hex (by decide) (by decide) (by decide) cs
  · have hfree : needsEscape c = false := by simpa using hneeds
    rw [escapeBare_of_not_needs hfree, List.singleton_append, value?_bare hc (.inl hfree)]

/-- The body of a literal stands for `v`, but for `extra` code units too many. -/
def StandsFor (strict : Bool) (body : List Char) (extra : Nat) (v : List Nat) : Prop :=
  ∃ w, value? strict false body = some w ∧ w.length = v.length + extra ∧ (extra = 0 → w = v)

/-- The same code units in front of the value and in front of what the body stands for. -/
theorem StandsFor.prepend {strict : Bool} {body body' : List Char} {extra : Nat} {v : List Nat}
    (h : StandsFor strict body extra v) {units : List Nat}
    (heq : value? strict false body' = (value? strict false body).map (units ++ ·)) :
    StandsFor strict body' extra (units ++ v) := by
  obtain ⟨w, hw, hlength, hsame⟩ := h
  refine ⟨units ++ w, by rw [heq, hw, Option.map_some], ?_, ?_⟩
  · rw [List.length_append, List.length_append, hlength]
    omega
  · intro hzero
    rw [hsame hzero]

/-- A continued line. The pair in front of it is copied, so that in the literal the line goes on behind one
    character: the LF of a CR LF is left, and is written as a bare one. -/
theorem standsFor_continuation {strict : Bool} {d : Char} {cs : List Char} {v : List Nat}
    (hd : isLineEnd d = true)
    (h : StandsFor strict (body (afterLineEnd d cs)) (crlfContinuations (afterLineEnd d cs)) v) :
    StandsFor strict (body ('\\' :: d :: cs)) (crlfContinuations ('\\' :: d :: cs)) v := by
  have hstep : value? strict false (body ('\\' :: d :: cs)) = value? strict false (body cs) := by
    have hnot : ¬ (d = '\r' ∧ (body cs).head? = some '\n') :=
      fun hcrlf => head_body_ne_newline cs hcrlf.2
    rw [body_pair, value?_continuation hd, afterLineEnd, if_neg hnot]
  by_cases hcrlf : d = '\r' ∧ cs.head? = some '\n'
  · obtain ⟨rest, rfl⟩ : ∃ rest, cs = '\n' :: rest := by
      cases cs with
      | nil => cases hcrlf.2
      | cons c rest => exact ⟨rest, by rw [Option.some.inj hcrlf.2]⟩
    rw [afterLineEnd, if_pos hcrlf, List.tail_cons] at h
    obtain ⟨w, hw, hlength, _⟩ := h
    have hcount : crlfContinuations ('\\' :: d :: '\n' :: rest) = 1 + crlfContinuations rest := by
      rw [crlfContinuations, if_pos rfl, if_pos hcrlf, crlfContinuations_cons (by decide)]
    refine ⟨0x0a :: w, ?_, ?_, ?_⟩
    · rw [hstep, body_cons (by decide), value?_escapeBare (by decide), hw]
      rfl
    · rw [hcount, List.length_cons, hlength]
      omega
    · rw [hcount]
      omega
  · rw [afterLineEnd, if_neg hcrlf] at h
    obtain ⟨w, hw, hlength, hsame⟩ := h
    have hcount : crlfContinuations ('\\' :: d :: cs) = crlfContinuations cs := by
      rw [crlfContinuations, if_pos rfl, if_neg hcrlf, Nat.zero_add]
    rw [hcount]
    exact ⟨w, hstep.trans hw, hlength, hsame⟩

/-- **The body of a literal has the value of the text**, but for a line feed too many at each line that
    is continued at a CR LF. -/
theorem standsFor_body {strict : Bool} {cs : List Char} {v : List Nat}
    (h : value? strict true cs = some v) : StandsFor strict (body cs) (crlfContinuations cs) v := by
  fun_induction value? strict true cs generalizing v with
  | case1 =>
    cases h
    exact ⟨[], by rw [body, value?], rfl, fun _ => rfl⟩
  | case2 => cases h
  | case3 c hc =>
    cases h
    have hempty : StandsFor strict (body []) 0 [] := ⟨[], by rw [body, value?], rfl, fun _ => rfl⟩
    have hslash : c ≠ '\\' := fun hc' => hc (.inl hc')
    rw [body_cons hslash, ← List.append_nil (codeUnits c.toNat)]
    exact hempty.prepend (value?_escapeBare hslash _)
  | case4 d cs hd ih => exact standsFor_continuation hd (ih h)
  | case5 => cases h
  | case6 d cs hd units taken hescape ih =>
    -- none of the characters that an escape takes is changed, so the literal has the same escape
    have hd' : isLineEnd d = false := by simpa using hd
    obtain ⟨v', hv', rfl⟩ := Option.map_eq_some_iff.mp h
    obtain ⟨hdrop, hcount⟩ := drop_of_escape (escape?_le hescape)
    have hpair : crlfContinuations ('\\' :: d :: cs) = crlfContinuations cs := by
      have hnot : ¬ (d = '\r' ∧ cs.head? = some '\n') := by
        rintro ⟨rfl, _⟩
        exact hd rfl
      rw [crlfContinuations, if_pos rfl, if_neg hnot, Nat.zero_add]
    rw [hpair, ← hcount]
    apply (ih hv').prepend
    rw [← hdrop, body_pair]
    apply value?_escape hd'
    rw [takeWhile_body, hescape]
  | case7 => cases h
  | case8 c d cs hc _ ih =>
    obtain ⟨v', hv', rfl⟩ := Option.map_eq_some_iff.mp h
    rw [body_cons hc, crlfContinuations_cons hc]
    exact (ih hv').prepend (value?_escapeBare hc _)

theorem literalValue?_quote (strict : Bool) (s : String) :
    literalValue? strict (quote s).toList = value? strict false (body s.toList) := by
  rw [quote, String.toList_ofList]
  simp only [literalValue?, (Protected.body s.toList).splitDelimited_eq]

end Literal

/-- **Strings keep their value, up to line ends of two characters.** A content with valid escapes, in
    which a double quote and a line end may stand bare, lowers to one literal with valid escapes. The value of
    the literal has a code unit too many for every line that the content continues at a CR LF, and it is the
    value of the content exactly if there is no such line. -/
theorem literal_keeps_value (strict : Bool) {s : String} {v : List Nat}
    (h : Literal.value? strict true s.toList = some v) :
    ∃ w, Literal.literalValue? strict (Literal.quote s).toList = some w
      ∧ w.length = v.length + Literal.crlfContinuations s.toList
      ∧ (w = v ↔ Literal.crlfContinuations s.toList = 0) := by
  obtain ⟨w, hw, hlength, hsame⟩ := Literal.standsFor_body h
  refine ⟨w, (Literal.literalValue?_quote strict s).trans hw, hlength, ?_, hsame⟩
  intro heq
  rw [heq] at hlength
  omega

/-- Escapes of every length, bare quotes and line ends, and a line continued at a CR. -/
theorem literal_keeps_value_mixed :
    let s := "\\x41\"\\u\x7b1f600\x7d\n\\\r\\u00e9\\0"
    Literal.value? true true s.toList = some [0x41, 0x22, 0xd83d, 0xde00, 0x0a, 0xe9, 0]
      ∧ Literal.literalValue? true (Literal.quote s).toList
        = some [0x41, 0x22, 0xd83d, 0xde00, 0x0a, 0xe9, 0] := by
  intro s
  have hvalue : Literal.value? true true s.toList
      = some [0x41, 0x22, 0xd83d, 0xde00, 0x0a, 0xe9, 0] := by decide +kernel
  have hlines : Literal.crlfContinuations s.toList = 0 := by decide +kernel
  obtain ⟨w, hw, _, hsame⟩ := literal_keeps_value true hvalue
  exact ⟨hvalue, hw.trans (congrArg some (hsame.mpr hlines))⟩

/-- A line that a string continues at a CR LF: the value of the literal has a line feed there. -/
theorem crlf_continuation_gains_newline :
    (Reader.ofText "\"a\\\r\nb\"").readAll.expressions = [.string "a\\\r\nb"]
      ∧ Literal.value? true true "a\\\r\nb".toList = some [0x61, 0x62]
      ∧ Literal.quote "a\\\r\nb" = "\"a\\\r\\nb\""
      ∧ Literal.literalValue? true (Literal.quote "a\\\r\nb").toList = some [0x61, 0x0a, 0x62] := by
  refine ⟨by with_unfolding_all rfl, ?_, ?_, ?_⟩
  · decide +kernel
  · decide +kernel
  · decide +kernel

end FormScript
