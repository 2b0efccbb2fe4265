import FormScript.Reading.Scanner

/-!
# Readers

A reader draws expressions from a source, one after the other, and remembers where the last one
began. It looks at one character at a time. After a failure it stays where the fault was found, and
reading can go on from there.
-/

namespace FormScript

/-- A source being read. -/
structure Reader where
  source : Source
  /-- Where the expression read last began, or would have begun. -/
  tokenStart : Position

namespace Reader

/-- A reader at the beginning of a source. -/
def ofSource (source : Source) : Reader := ⟨source, .start⟩

/-- A reader over a text held whole. -/
def ofText (text : String) : Reader := ofSource (.ofText text.toList)

/-- Goes back to the beginning of the source. -/
def reset (r : Reader) : Reader := ofSource r.source.reset

/-- Where the reader stands. -/
def position (r : Reader) : Position := r.source.position

/-- The characters still to be read. -/
def rest (r : Reader) : List Char := r.source.rest

/-- Reads the next expression; `none` at the end of the source. -/
def read (r : Reader) : Except ReadError (Option Sexp) × Reader :=
  let start := r.source.skipGap
  let (outcome, stop) := start.readExpression
  (outcome.mapError fun fault => .ofFault fault stop.describe, ⟨stop, start.position⟩)

/-- **What is read through the source is what stands at its cursor.** -/
theorem read_eq_moveTo (r : Reader) :
    r.read = (r.source.cursor.skipGap.readExpression.1.mapError fun fault =>
          .ofFault fault (r.source.moveTo r.source.cursor.skipGap.readExpression.2).describe,
        ⟨r.source.moveTo r.source.cursor.skipGap.readExpression.2, r.source.cursor.skipGap.position⟩) := by
  have hreach := Cursor.readWithin_reaches [] r.source.cursor.skipGap
  have hstop : r.source.skipGap.moveTo r.source.cursor.skipGap.readExpression.2
      = r.source.moveTo r.source.cursor.skipGap.readExpression.2 := by
    apply Source.skipGap_moveTo
    rw [Source.skipGap_cursor]
    exact hreach
  have hstart : r.source.skipGap.position = r.source.cursor.skipGap.position :=
    congrArg Cursor.position r.source.skipGap_cursor
  unfold read
  simp only [Source.readExpression_eq, Source.skipGap_cursor, Source.follow, hstop, hstart]

/-- Reading leaves the source where the cursor stops. -/
theorem read_cursor (r : Reader) :
    r.read.2.source.cursor = r.source.cursor.skipGap.readExpression.2 := by
  rw [read_eq_moveTo]
  exact Source.moveTo_cursor (r.source.cursor.skipGap_reaches.trans
    (Cursor.readWithin_reaches [] r.source.cursor.skipGap))

/-- An expression takes at least one character. -/
theorem read_length_lt {r r' : Reader} {e : Sexp} (h : r.read = (.ok (some e), r')) :
    r'.rest.length < r.rest.length := by
  have hok : (r.source.cursor.skipGap.readWithin []).1 = .ok (some e) := by
    have houtcome := congrArg Prod.fst h
    rw [read_eq_moveTo] at houtcome
    simp only [Cursor.readExpression] at houtcome
    cases hread : (r.source.cursor.skipGap.readWithin []).1 with
    | error fault => rw [hread] at houtcome; cases houtcome
    | ok result => rw [hread] at houtcome; cases houtcome; rfl
  have hcursor := r.read_cursor
  rw [h] at hcursor
  have hrest : r'.rest = (r.source.cursor.skipGap.readWithin []).2.rest :=
    congrArg Cursor.rest hcursor
  rw [hrest]
  exact Nat.lt_of_lt_of_le (Cursor.readWithin_length_lt hok)
    r.source.cursor.skipGap_reaches.length_le

end Reader

end FormScript
