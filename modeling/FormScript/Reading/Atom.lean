import FormScript.Number.Numeral
import FormScript.Reading.Error
import FormScript.Reading.Gap

/-!
# Atoms

Strings, regular expressions, division signs and words. Every function starts at the first character
of the atom and leaves the cursor right after its last one. An atom that the text cuts short leaves
the cursor at the end of the text.
-/

namespace FormScript

/-- The characters that end a word. -/
def endsWord (c : Char) : Bool :=
  isBlank c || c = '"' || c = '\'' || c = ';' ||
    (Bracket.ofOpening? c).isSome || (Bracket.ofClosing? c).isSome

/-- The characters after which a slash is a division sign. An opening bracket or a quote is none of
    them: there a regular expression begins. -/
def endsSlash (c : Char) : Bool :=
  isBlank c || c = ';' || (Bracket.ofClosing? c).isSome

/-- Whether a slash followed by this text is a division sign. -/
def standsAlone (rest : List Char) : Bool :=
  match rest with
  | [] => true
  | c :: _ => endsSlash c

/-- The flags that may follow a regular expression. -/
def isRegexFlag (c : Char) : Bool := "dgimsuy".toList.contains c

/-- The text up to the first `delimiter` that no backslash protects, and what follows it. -/
def splitDelimited (delimiter : Char) : List Char → Option (List Char × List Char)
  | [] => none
  | [c] => if c = delimiter then some ([], []) else none
  | c :: d :: cs =>
    if c = '\\' then
      (splitDelimited delimiter cs).map fun (body, rest) => (c :: d :: body, rest)
    else if c = delimiter then some ([], d :: cs)
    else (splitDelimited delimiter (d :: cs)).map fun (body, rest) => (c :: body, rest)

/-- The word that reads as the line it stands on. -/
def lineMarker : String := "__LINE"

/-- The word that reads as the column it begins at. -/
def columnMarker : String := "__COLUMN"

/-- What a word stands for, when it ends at `stop`. -/
def wordValue (word : List Char) (stop : Position) : Sexp :=
  match Numeral.ofWord? word with
  | some numeral => .number numeral.value
  | none =>
    let name := String.ofList word
    if name = lineMarker then .number (.ofNat stop.line)
    else if name = columnMarker then .number (.ofNat (stop.column - columnMarker.length))
    else .symbol name

namespace Cursor

/-- A string, after its opening quote. -/
def readString (quote : Char) (c : Cursor) : Except ReadFault Sexp × Cursor :=
  match splitDelimited quote c.rest with
  | some (body, rest) => (.ok (.string (String.ofList body)), c.past (body ++ [quote]) rest)
  | none => (.error .unterminatedString, c.toEnd)

/-- A regular expression, after its opening slash. -/
def readRegex (c : Cursor) : Except ReadFault Sexp × Cursor :=
  match splitDelimited '/' c.rest with
  | some (body, rest) =>
    let (flags, stop) := (c.past (body ++ ['/']) rest).span isRegexFlag
    (.ok (.regex (String.ofList body) (String.ofList flags)), stop)
  | none => (.error .unterminatedRegex, c.toEnd)

/-- What a slash begins, after the slash: `/`, `/=` or a regular expression. -/
def readSlash (c : Cursor) : Except ReadFault Sexp × Cursor :=
  if standsAlone c.rest then (.ok (.symbol "/"), c)
  else match c.rest with
    | '=' :: rest => if standsAlone rest then (.ok (.symbol "/="), c.next) else c.readRegex
    | _ => c.readRegex

/-- A word with the first character `first`, after that character. -/
def readWord (first : Char) (c : Cursor) : Except ReadFault Sexp × Cursor :=
  let (tail, stop) := c.span fun ch => !endsWord ch
  (.ok (wordValue (first :: tail) stop.position), stop)

/-- The atom with the first character `first`, after that character. -/
def readAtom (first : Char) (c : Cursor) : Except ReadFault Sexp × Cursor :=
  if first = '"' ∨ first = '\'' then c.readString first
  else if first = '/' then c.readSlash
  else c.readWord first

end Cursor

/-! ## Reading moves forward -/

theorem splitDelimited_eq_append {delimiter : Char} {cs body rest : List Char}
    (h : splitDelimited delimiter cs = some (body, rest)) :
    cs = body ++ [delimiter] ++ rest := by
  fun_induction splitDelimited delimiter cs generalizing body with
  | case1 => cases h
  | case2 => cases h; rfl
  | case3 => cases h
  | case4 d cs ih =>
    obtain ⟨⟨b, r⟩, hb, he⟩ := Option.map_eq_some_iff.1 h
    obtain ⟨rfl, rfl⟩ := Prod.mk.inj he
    rw [ih hb]
    rfl
  | case5 => cases h; rfl
  | case6 c d cs hc hd ih =>
    obtain ⟨⟨b, r⟩, hb, he⟩ := Option.map_eq_some_iff.1 h
    obtain ⟨rfl, rfl⟩ := Prod.mk.inj he
    rw [ih hb]
    rfl

namespace Cursor

theorem readString_reaches (quote : Char) (c : Cursor) : c.Reaches (c.readString quote).2 := by
  unfold readString
  split
  · rename_i h
    exact past_reaches (splitDelimited_eq_append h)
  · exact c.toEnd_reaches

theorem readRegex_reaches (c : Cursor) : c.Reaches c.readRegex.2 := by
  unfold readRegex
  split
  · rename_i h
    exact (past_reaches (splitDelimited_eq_append h)).trans (span_reaches isRegexFlag _)
  · exact c.toEnd_reaches

theorem readSlash_reaches (c : Cursor) : c.Reaches c.readSlash.2 := by
  unfold readSlash
  split
  · exact Reaches.refl c
  · split
    · split
      · exact c.next_reaches
      · exact c.readRegex_reaches
    · exact c.readRegex_reaches

theorem readAtom_reaches (first : Char) (c : Cursor) : c.Reaches (c.readAtom first).2 := by
  unfold readAtom
  split
  · exact c.readString_reaches first
  · split
    · exact c.readSlash_reaches
    · exact c.span_reaches _

end Cursor

end FormScript
