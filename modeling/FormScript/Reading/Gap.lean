import FormScript.Text.Cursor

/-!
# Gaps

Between expressions there may be blanks and comments. A comment begins at a semicolon and runs up to
the end of the line.
-/

namespace FormScript

/-- The blank characters. -/
def isBlank (c : Char) : Bool :=
  c = ' ' || c = '\n' || c = '\r' || c = '\t' || c = '\x0c' ||
    c = '\u00a0' || c = '\u2028' || c = '\u2029'

namespace Cursor

/-- Skips a gap that begins at `rest`, or goes on there inside a comment. -/
def skipFrom (inComment : Bool) : List Char → Position → Cursor
  | [], p => ⟨[], p⟩
  | c :: cs, p =>
    if inComment then skipFrom (decide (c ≠ '\n')) cs (p.step c)
    else if isBlank c then skipFrom false cs (p.step c)
    else if c = ';' then skipFrom true cs (p.step c)
    else ⟨c :: cs, p⟩

/-- The cursor after the gap that begins at it. -/
def skipGap (c : Cursor) : Cursor := skipFrom false c.rest c.position

theorem skipFrom_reaches (inComment : Bool) (cs : List Char) (p : Position) :
    Reaches ⟨cs, p⟩ (skipFrom inComment cs p) := by
  induction cs generalizing inComment p with
  | nil => exact Reaches.refl _
  | cons c cs ih =>
    have hstep : Reaches ⟨c :: cs, p⟩ ⟨cs, p.step c⟩ := ⟨[c], rfl, rfl⟩
    unfold skipFrom
    split
    · exact hstep.trans (ih _ _)
    · split
      · exact hstep.trans (ih _ _)
      · split
        · exact hstep.trans (ih _ _)
        · exact Reaches.refl _

theorem skipGap_reaches (c : Cursor) : c.Reaches c.skipGap :=
  skipFrom_reaches false c.rest c.position

end Cursor

end FormScript
