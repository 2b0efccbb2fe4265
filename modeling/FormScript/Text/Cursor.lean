import FormScript.Text.Position

/-!
# Cursors

A cursor is what is left of a text together with the place where that rest begins. Readers move a
cursor forward only; `span` takes a run of characters, `next` a single one. `Reaches` says that one
cursor comes from another by moving over characters of the text.
-/

namespace FormScript

/-- The rest of a text and the place where it begins. -/
structure Cursor where
  rest : List Char
  position : Position
deriving DecidableEq

namespace Cursor

/-- The cursor at the beginning of a text. -/
def ofText (cs : List Char) : Cursor := ⟨cs, .start⟩

/-- The cursor after the characters `taken`, when `rest` follows them. -/
def past (c : Cursor) (taken rest : List Char) : Cursor :=
  ⟨rest, c.position.advance taken⟩

/-- The cursor after one character; at the end of the text it stays. -/
def next (c : Cursor) : Cursor :=
  match c.rest with
  | [] => c
  | ch :: rest => c.past [ch] rest

/-- The cursor at the end of the text. -/
def toEnd (c : Cursor) : Cursor :=
  c.past c.rest []

/-- The longest run of characters that satisfy `keep`, and the cursor after it. -/
def span (keep : Char → Bool) (c : Cursor) : List Char × Cursor :=
  (c.rest.takeWhile keep, c.past (c.rest.takeWhile keep) (c.rest.dropWhile keep))

/-! ## Moving forward -/

/-- The second cursor is the first one moved over some characters. -/
def Reaches (c d : Cursor) : Prop :=
  ∃ taken, c.rest = taken ++ d.rest ∧ d.position = c.position.advance taken

theorem Reaches.refl (c : Cursor) : c.Reaches c := ⟨[], rfl, rfl⟩

theorem Reaches.trans {c d e : Cursor} (h : c.Reaches d) (k : d.Reaches e) : c.Reaches e := by
  obtain ⟨t, hrest, hpos⟩ := h
  obtain ⟨u, krest, kpos⟩ := k
  refine ⟨t ++ u, ?_, ?_⟩
  · rw [hrest, krest, List.append_assoc]
  · rw [kpos, hpos, Position.advance_append]

theorem Reaches.length_le {c d : Cursor} (h : c.Reaches d) : d.rest.length ≤ c.rest.length := by
  obtain ⟨t, hrest, -⟩ := h
  rw [hrest, List.length_append]
  exact Nat.le_add_left _ _

/-- The characters passed are counted by the offset. -/
theorem Reaches.offset {c d : Cursor} (h : c.Reaches d) :
    d.position.offset + d.rest.length = c.position.offset + c.rest.length := by
  obtain ⟨t, hrest, hpos⟩ := h
  rw [hrest, hpos, Position.advance_offset, List.length_append]
  omega

theorem Reaches.offset_le {c d : Cursor} (h : c.Reaches d) : c.position.offset ≤ d.position.offset := by
  obtain ⟨t, -, hpos⟩ := h
  rw [hpos, Position.advance_offset]
  exact Nat.le_add_right _ _

theorem past_reaches {c : Cursor} {taken rest : List Char} (h : c.rest = taken ++ rest) :
    c.Reaches (c.past taken rest) := ⟨taken, h, rfl⟩

theorem next_reaches (c : Cursor) : c.Reaches c.next := by
  unfold next
  split
  · exact Reaches.refl c
  · rename_i ch rest h
    exact past_reaches h

theorem next_rest (c : Cursor) : c.next.rest = c.rest.tail := by
  unfold next
  split
  · rename_i h
    rw [h]; rfl
  · rename_i ch rest h
    rw [h]; rfl

theorem toEnd_reaches (c : Cursor) : c.Reaches c.toEnd :=
  past_reaches (List.append_nil c.rest).symm

theorem span_reaches (keep : Char → Bool) (c : Cursor) : c.Reaches (c.span keep).2 :=
  past_reaches List.takeWhile_append_dropWhile.symm

end Cursor

end FormScript
