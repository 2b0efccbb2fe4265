/-!
# Strings of bytes

The system hands over arguments, paths and names as strings of bytes. Most of them spell a text in UTF-8,
but they need not. `display` shows any of them: bytes that spell nothing are shown as a replacement
character, one for each stretch of bytes that could begin a character and does not end it.
-/

namespace FormScript

/-- A string of bytes. -/
structure ByteString where
  bytes : List UInt8
deriving DecidableEq

namespace ByteString

/-- The bytes of a text. -/
def ofText (text : String) : ByteString := ⟨text.toUTF8.data.toList⟩

instance : Coe String ByteString := ⟨ofText⟩

instance : Append ByteString := ⟨fun s t => ⟨s.bytes ++ t.bytes⟩⟩

/-- The text that the bytes spell. -/
def text? (s : ByteString) : Option String := String.fromUTF8? ⟨⟨s.bytes⟩⟩

/-! ## Showing bytes -/

/-- The bytes of a character after its first one. -/
def continues (b : UInt8) : Bool := 0x80 ≤ b && b ≤ 0xbf

/-- How many bytes a character has that begins with `a`; none does if this is zero. -/
def width (a : UInt8) : Nat :=
  if a ≤ 0x7f then 1
  else if 0xc2 ≤ a && a ≤ 0xdf then 2
  else if 0xe0 ≤ a && a ≤ 0xef then 3
  else if 0xf0 ≤ a && a ≤ 0xf4 then 4
  else 0

/-- Whether `b` can be the second byte of a character that begins with `a`. -/
def follows (a b : UInt8) : Bool :=
  if a = 0xe0 then 0xa0 ≤ b && b ≤ 0xbf
  else if a = 0xed then 0x80 ≤ b && b ≤ 0x9f
  else if a = 0xf0 then 0x90 ≤ b && b ≤ 0xbf
  else if a = 0xf4 then 0x80 ≤ b && b ≤ 0x8f
  else continues b

/-- How many of the bytes after `a` go on with the character that `a` begins. -/
def stretch (a : UInt8) : List UInt8 → Nat
  | [] => 0
  | b :: rest =>
    if 2 ≤ width a && follows a b then 1 + ((rest.take (width a - 2)).takeWhile continues).length
    else 0

/-- The characters that bytes spell, with a replacement character for what spells none. -/
def decodeLossy : List UInt8 → List Char
  | [] => []
  | a :: rest =>
    let stretched := a :: rest.take (stretch a rest)
    ((text? ⟨stretched⟩).map String.toList).getD ['\ufffd'] ++ decodeLossy (rest.drop (stretch a rest))
termination_by bytes => bytes.length
decreasing_by
  rw [List.length_drop, List.length_cons]
  omega

/-- The text to show for a string of bytes. -/
def display (s : ByteString) : String := s.text?.getD (String.ofList (decodeLossy s.bytes))

/-! ## Texts as bytes -/

/-- The bytes of a text, and no others, are read as the text. -/
theorem fromUTF8?_eq_some_iff {content : ByteArray} {text : String} :
    String.fromUTF8? content = some text ↔ content = text.toUTF8 := by
  unfold String.fromUTF8?
  constructor
  · intro h
    split at h
    · cases h
      rfl
    · cases h
  · rintro rfl
    have hvalid : text.toUTF8.IsValidUTF8 := text.isValidUTF8
    rw [dif_pos hvalid]
    rfl

theorem text?_eq_some_iff {s : ByteString} {text : String} : s.text? = some text ↔ s = ofText text := by
  unfold text? ofText
  rw [fromUTF8?_eq_some_iff]
  constructor
  · intro h
    rw [← h]
  · rintro rfl
    rfl

@[simp] theorem text?_ofText (text : String) : (ofText text).text? = some text :=
  text?_eq_some_iff.mpr rfl

@[simp] theorem display_ofText (text : String) : (ofText text).display = text := by
  unfold display
  rw [text?_ofText]
  rfl

theorem ofText_append (s t : String) : ofText (s ++ t) = ofText s ++ ofText t := by
  simp only [ofText, String.toUTF8, String.toByteArray_append, ByteArray.toList_data_append]
  rfl

/-- A character that breaks off, a byte that begins none, and a text. -/
example : display ⟨[0x61, 0xe2, 0x82, 0x62, 0xff, 0xf0, 0x9f, 0x98, 0x80]⟩ = "a\ufffdb\ufffd😀" := by
  decide +kernel

end ByteString

end FormScript
