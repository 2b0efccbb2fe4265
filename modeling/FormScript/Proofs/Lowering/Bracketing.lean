import FormScript.Proofs.Number.RoundTrip
import FormScript.Sexp.Printer

/-!
# Balanced texts

`Nesting.scan` reads a text from left to right and keeps the brackets that are open; inside a string
literal brackets do not count, and a literal runs up to the next double quote that no backslash
protects. A text is `Balanced` when the scan, begun outside all literals, comes back to where it began,
whatever is open around the text. Balanced texts can be put together and put in brackets, every literal
is balanced, and so is every spelled number.
-/

namespace FormScript

/-! ## Scanning a text -/

/-- Where a scan stands with regard to string literals. -/
inductive Quoting where
  | outside
  | inside
  /-- Inside, right after a backslash that protects the next character. -/
  | escaped
deriving DecidableEq

/-- What a scan has to remember: the open brackets, innermost first, and the literal it is in. -/
structure Nesting where
  opened : List Bracket
  quoting : Quoting
deriving DecidableEq

namespace Nesting

/-- Outside all brackets and literals. -/
def start : Nesting := ⟨[], .outside⟩

/-- One more character; `none` if it closes a bracket that is not the innermost open one. -/
def step (n : Nesting) (c : Char) : Option Nesting :=
  match n.quoting with
  | .escaped => some ⟨n.opened, .inside⟩
  | .inside =>
    if c = '"' then some ⟨n.opened, .outside⟩
    else if c = '\\' then some ⟨n.opened, .escaped⟩
    else some n
  | .outside =>
    if c = '"' then some ⟨n.opened, .inside⟩
    else match Bracket.ofOpening? c, Bracket.ofClosing? c with
      | some b, _ => some ⟨b :: n.opened, .outside⟩
      | none, some b => if n.opened.head? = some b then some ⟨n.opened.tail, .outside⟩ else none
      | none, none => some n

/-- The characters of a text, one after the other. -/
def scan (n : Nesting) (cs : List Char) : Option Nesting := cs.foldlM step n

theorem scan_cons (n : Nesting) (c : Char) (cs : List Char) :
    n.scan (c :: cs) = (n.step c).bind fun m => m.scan cs := rfl

theorem scan_append (n : Nesting) (cs ds : List Char) :
    n.scan (cs ++ ds) = (n.scan cs).bind fun m => m.scan ds := List.foldlM_append

end Nesting

/-- All brackets outside literals are matched and properly nested, and all literals are closed. -/
def WellBracketed (text : String) : Prop := Nesting.start.scan text.toList = some .start

instance (text : String) : Decidable (WellBracketed text) :=
  inferInstanceAs (Decidable (Nesting.start.scan text.toList = some .start))

/-- Outside literals, scanning the characters changes nothing. -/
def Neutral (cs : List Char) : Prop :=
  ∀ opened, Nesting.scan ⟨opened, .outside⟩ cs = some ⟨opened, .outside⟩

/-- Inside a literal, scanning the characters changes nothing. -/
def Enclosed (cs : List Char) : Prop :=
  ∀ opened, Nesting.scan ⟨opened, .inside⟩ cs = some ⟨opened, .inside⟩

/-- The text may stand anywhere outside literals. -/
def Balanced (text : String) : Prop := Neutral text.toList

theorem Balanced.wellBracketed {text : String} (h : Balanced text) : WellBracketed text := h []

namespace Nesting

/-- A step does not look below the brackets that it finds open. -/
theorem step_above (outer : List Bracket) {n m : Nesting} {c : Char} (h : n.step c = some m) :
    step ⟨n.opened ++ outer, n.quoting⟩ c = some ⟨m.opened ++ outer, m.quoting⟩ := by
  obtain ⟨opened, quoting⟩ := n
  cases quoting with
  | escaped =>
    cases h
    rfl
  | inside =>
    by_cases hquote : c = '"'
    · simp only [step, if_pos hquote] at h ⊢
      cases h
      rfl
    · by_cases hslash : c = '\\'
      · simp only [step, if_neg hquote, if_pos hslash] at h ⊢
        cases h
        rfl
      · simp only [step, if_neg hquote, if_neg hslash] at h ⊢
        cases h
        rfl
  | outside =>
    by_cases hquote : c = '"'
    · simp only [step, if_pos hquote] at h ⊢
      cases h
      rfl
    · simp only [step, if_neg hquote] at h ⊢
      cases hopen : Bracket.ofOpening? c with
      | some b =>
        rw [hopen] at h
        cases h
        rfl
      | none =>
        cases hclose : Bracket.ofClosing? c with
        | none =>
          rw [hopen, hclose] at h
          cases h
          rfl
        | some b =>
          rw [hopen, hclose] at h
          -- what is closed is the innermost bracket, and that one is not below
          cases opened with
          | nil => cases h
          | cons innermost rest =>
            by_cases hb : innermost = b
            · simp only [hb, List.head?_cons, if_true] at h
              cases h
              simp [hb]
            · simp [hb] at h

theorem scan_above (outer : List Bracket) {n m : Nesting} {cs : List Char} (h : n.scan cs = some m) :
    scan ⟨n.opened ++ outer, n.quoting⟩ cs = some ⟨m.opened ++ outer, m.quoting⟩ := by
  induction cs generalizing n with
  | nil =>
    cases h
    rfl
  | cons c cs ih =>
    rw [scan_cons] at h
    obtain ⟨between, hstep, hrest⟩ := Option.bind_eq_some_iff.mp h
    rw [scan_cons, step_above outer hstep]
    exact ih hrest

end Nesting

/-- A text that is well bracketed by itself is so wherever it stands. -/
theorem WellBracketed.balanced {text : String} (h : WellBracketed text) : Balanced text :=
  fun opened => Nesting.scan_above opened h

/-! ## Putting balanced texts together -/

namespace Neutral

theorem nil : Neutral [] := fun _ => rfl

theorem append {cs ds : List Char} (hcs : Neutral cs) (hds : Neutral ds) : Neutral (cs ++ ds) := by
  intro opened
  rw [Nesting.scan_append, hcs opened]
  exact hds opened

/-- A neutral text in brackets is neutral: its closing bracket meets its opening one. -/
theorem enclose (b : Bracket) {cs : List Char} (h : Neutral cs) :
    Neutral (b.opening :: (cs ++ [b.closing])) := by
  intro opened
  have hopen : Nesting.step ⟨opened, .outside⟩ b.opening = some ⟨b :: opened, .outside⟩ := by
    cases b <;> rfl
  have hclose : Nesting.step ⟨b :: opened, .outside⟩ b.closing = some ⟨opened, .outside⟩ := by
    cases b <;> rfl
  rw [Nesting.scan_cons, hopen, Option.bind_some, Nesting.scan_append, h (b :: opened),
    Option.bind_some, Nesting.scan_cons, hclose]
  rfl

/-- A literal with an enclosed body is neutral. -/
theorem literal {cs : List Char} (h : Enclosed cs) : Neutral ('"' :: (cs ++ ['"'])) := by
  intro opened
  have hopen : Nesting.step ⟨opened, .outside⟩ '"' = some ⟨opened, .inside⟩ := rfl
  rw [Nesting.scan_cons, hopen, Option.bind_some, Nesting.scan_append, h opened]
  rfl

end Neutral

/-- Characters that are no bracket and no double quote. -/
def isPlain (c : Char) : Bool :=
  decide (c ≠ '"') && (Bracket.ofOpening? c).isNone && (Bracket.ofClosing? c).isNone

theorem neutral_of_plain {cs : List Char} (h : ∀ c ∈ cs, isPlain c = true) : Neutral cs := by
  induction cs with
  | nil => exact Neutral.nil
  | cons c cs ih =>
    obtain ⟨hc, hcs⟩ := List.forall_mem_cons.mp h
    intro opened
    have hstep : Nesting.step ⟨opened, .outside⟩ c = some ⟨opened, .outside⟩ := by
      simp only [isPlain, Bool.and_eq_true, decide_eq_true_eq, Option.isNone_iff_eq_none] at hc
      simp only [Nesting.step, if_neg hc.1.1, hc.1.2, hc.2]
    rw [Nesting.scan_cons, hstep]
    exact ih hcs opened

namespace Balanced

theorem append {s t : String} (hs : Balanced s) (ht : Balanced t) : Balanced (s ++ t) := by
  unfold Balanced
  rw [String.toList_append]
  exact Neutral.append hs ht

theorem between (b : Bracket) {s : String} (h : Balanced s) :
    Balanced (String.singleton b.opening ++ (s ++ String.singleton b.closing)) := by
  unfold Balanced
  rw [String.toList_append, String.toList_append, String.toList_singleton, String.toList_singleton]
  exact Neutral.enclose b h

theorem empty : Balanced "" := Neutral.nil

end Balanced

/-! ## Literals -/

namespace Enclosed

theorem append {cs ds : List Char} (hcs : Enclosed cs) (hds : Enclosed ds) : Enclosed (cs ++ ds) := by
  intro opened
  rw [Nesting.scan_append, hcs opened]
  exact hds opened

/-- A backslash and the character it protects. -/
theorem pair (c : Char) : Enclosed ['\\', c] := by
  intro opened
  rfl

/-- A character that ends no literal and protects nothing. -/
theorem single {c : Char} (hquote : c ≠ '"') (hbackslash : c ≠ '\\') : Enclosed [c] := by
  intro opened
  rw [Nesting.scan_cons]
  simp only [Nesting.step, if_neg hquote, if_neg hbackslash]
  rfl

theorem escapeBare {c : Char} (hc : c ≠ '\\') : Enclosed (Literal.escapeBare c) := by
  unfold Literal.escapeBare
  split
  · exact pair '"'
  · rename_i hquote
    split
    · exact pair 'n'
    · split
      · exact pair 'r'
      · split
        · intro opened
          rfl
        · split
          · intro opened
            rfl
          · exact single hquote hc

/-- The body of a literal never ends it, and protects nothing behind itself. -/
theorem body (cs : List Char) : Enclosed (Literal.body cs) := by
  fun_induction Literal.body cs with
  | case1 =>
    intro opened
    rfl
  | case2 => exact pair '\\'
  | case3 c hc => exact escapeBare hc
  | case4 d cs ih => exact append (pair d) ih
  | case5 c d cs hc ih => exact append (escapeBare hc) ih

theorem verbatimBody (cs : List Char) : Enclosed (Literal.verbatimBody cs) := by
  induction cs with
  | nil =>
    intro opened
    rfl
  | cons c cs ih =>
    have hsplit : Literal.verbatimBody (c :: cs)
        = (if c = '\\' then ['\\', '\\'] else Literal.escapeBare c) ++ Literal.verbatimBody cs := rfl
    rw [hsplit]
    apply append _ ih
    split
    · exact pair '\\'
    · rename_i hc
      exact escapeBare hc

end Enclosed

theorem balanced_quote (content : String) : Balanced (Literal.quote content) := by
  unfold Balanced Literal.quote
  rw [String.toList_ofList]
  exact Neutral.literal (Enclosed.body content.toList)

theorem balanced_quoteVerbatim (text : String) : Balanced (Literal.quoteVerbatim text) := by
  unfold Balanced Literal.quoteVerbatim
  rw [String.toList_ofList]
  exact Neutral.literal (Enclosed.verbatimBody text.toList)

/-! ## Numbers -/

theorem isPlain_of_isSpelling {c : Char} (h : Number.isSpelling c = true) : isPlain c = true := by
  have hne : ∀ d : Char, Number.isSpelling d = false → c ≠ d := fun _ hd => ne_of_class h hd
  simp only [isPlain, Bracket.ofOpening?, Bracket.ofClosing?, if_neg (hne '(' rfl),
    if_neg (hne '[' rfl), if_neg (hne '\x7b' rfl), if_neg (hne ')' rfl), if_neg (hne ']' rfl),
    if_neg (hne '\x7d' rfl)]
  simp [hne '"' rfl]

theorem balanced_number (x : Number) : Balanced x.text :=
  neutral_of_plain fun c hc => isPlain_of_isSpelling (x.text_chars.2 c hc)

end FormScript
