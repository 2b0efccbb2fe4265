import FormScript.Proofs.Reading.Streams
import FormScript.Proofs.Sexp.StringValue

/-!
# Literals are well formed

`Literal.quote` writes any content between double quotes. What it writes is one string for a reader, from
the first character to the last, whatever the content was: also a content that was never read, with quotes
and line ends standing bare in it or a backslash at its end (`literal_is_one_string`).

Whether a text may stand between the quotes is told by its escape pairs (`Literal.WellEscaped`), without
regard to how a literal is written or read. The writer goes through the content in steps of one or two
characters, and the reader through the literal in steps of its own; the two stay aligned because the body
of a literal is protected (`Protected`), and protected texts are the well-escaped ones.
-/

namespace FormScript

namespace Literal

/-! ## Escape pairs -/

/-- The characters that no backslash protects, where a backslash protects the character after it and is
    then spent; `none` if the last backslash has nothing to protect. -/
def unprotected? : List Char → Option (List Char)
  | [] => some []
  | [c] => if c = '\\' then none else some [c]
  | c :: d :: cs => if c = '\\' then unprotected? cs else (unprotected? (d :: cs)).map (c :: ·)

/-- No double quote and no line end stands bare in the text, and no backslash dangles at its end. -/
def WellEscaped (cs : List Char) : Prop :=
  ∃ bare, unprotected? cs = some bare ∧ ∀ c ∈ bare, needsEscape c = false

theorem unprotected?_pair (d : Char) (cs : List Char) :
    unprotected? ('\\' :: d :: cs) = unprotected? cs := by
  simp [unprotected?]

theorem unprotected?_cons {c : Char} (hc : c ≠ '\\') (cs : List Char) :
    unprotected? (c :: cs) = (unprotected? cs).map (c :: ·) := by
  cases cs with
  | nil => simp [unprotected?, hc]
  | cons d cs => simp [unprotected?, hc]

/-- **The protected texts are the well-escaped ones.** -/
theorem protected_iff {cs : List Char} : Protected cs ↔ WellEscaped cs := by
  constructor
  · intro h
    induction h with
    | nil => exact ⟨[], rfl, List.forall_mem_nil _⟩
    | @pair c cs _ ih =>
      obtain ⟨bare, hbare, hfree⟩ := ih
      exact ⟨bare, (unprotected?_pair c cs).trans hbare, hfree⟩
    | @bare c cs hc hself _ ih =>
      obtain ⟨bare, hbare, hfree⟩ := ih
      refine ⟨c :: bare, ?_, List.forall_mem_cons.mpr ⟨escapeBare_eq_iff.mp hself, hfree⟩⟩
      rw [unprotected?_cons hc, hbare, Option.map_some]
  · rintro ⟨bare, hbare, hfree⟩
    fun_induction unprotected? cs generalizing bare with
    | case1 => exact .nil
    | case2 => cases hbare
    | case3 c hc =>
      cases hbare
      exact .bare hc (escapeBare_of_not_needs (hfree c List.mem_cons_self)) .nil
    | case4 d cs ih => exact .pair (ih bare hbare hfree)
    | case5 c d cs hc ih =>
      obtain ⟨more, hmore, rfl⟩ := Option.map_eq_some_iff.mp hbare
      obtain ⟨hself, hfree⟩ := List.forall_mem_cons.mp hfree
      exact .bare hc (escapeBare_of_not_needs hself) (ih more hmore hfree)

/-- A content is written as it is exactly if it is well escaped. -/
theorem body_eq_iff {cs : List Char} : body cs = cs ↔ WellEscaped cs := by
  rw [← protected_iff]
  constructor
  · intro h
    rw [← h]
    exact .body cs
  · exact Protected.body_eq

end Literal

/-! ## Reading a literal -/

/-- A reader draws the expression from the source and nothing else, and it takes all characters. -/
structure Source.HoldsOnly (source : Source) (e : Sexp) : Prop where
  items : (Reader.ofSource source).readAll.items
    = [⟨e, .start, Position.start.advance source.rest⟩]
  error : (Reader.ofSource source).readAll.error = none
  rest : (Reader.ofSource source).readAll.reader.rest = []

/-- A source of the characters of a lexeme holds its atom only. -/
theorem Lexeme.holdsOnly {cs : List Char} {a : Sexp} (h : Lexeme cs a) (hcs : Unmarked cs)
    {source : Source} (hsource : source.cursor = .ofText cs) : source.HoldsOnly a := by
  have hrest : source.rest = cs := congrArg Cursor.rest hsource
  have hscan : (Reader.ofSource source).source.cursor.scan = _ :=
    (congrArg Cursor.scan hsource).trans (h.scan_eq hcs)
  obtain ⟨_, _, hitems, hstop, herror⟩ := (Reader.ofSource source).readAll_scan
  rw [hscan] at hitems hstop herror
  rw [← hrest] at hitems
  exact ⟨hitems, herror, congrArg Cursor.rest hstop⟩

/-- **Every literal is one string.** What is written for a content begins and ends with a double quote.
    Between the quotes, read in escape pairs, no double quote and no line end stands bare and no backslash
    dangles. A reader over it, held whole or streamed, draws from it one string, from the first character to
    the last, and the content of the string is what stands between the quotes. That content is written as the
    same literal again; and it is the content that the literal was written for exactly if that was well
    escaped already. -/
theorem literal_is_one_string (content : String) :
    ∃ inner : String, (Literal.quote content).toList = '"' :: (inner.toList ++ ['"'])
      ∧ Literal.WellEscaped inner.toList
      ∧ (Source.ofText (Literal.quote content).toList).HoldsOnly (.string inner)
      ∧ (Source.ofStream (Literal.quote content).toList).HoldsOnly (.string inner)
      ∧ Literal.quote inner = Literal.quote content
      ∧ (inner = content ↔ Literal.WellEscaped content.toList) := by
  have hbody := Protected.body content.toList
  obtain ⟨hlexeme, hunmarked, _, _⟩ := prints_string content
  rw [Sexp.text] at hlexeme hunmarked
  have hwhole : ∀ cs, (Source.ofText cs).cursor = .ofText cs := fun _ => rfl
  have hstream : ∀ cs, (Source.ofStream cs).cursor = .ofText cs := fun cs =>
    (Source.ofStream_agrees cs).cursor.symm.trans (hwhole cs)
  refine ⟨String.ofList (Literal.body content.toList), ?_, ?_, ?_, ?_, ?_, ?_⟩
  · rw [Literal.quote, String.toList_ofList, String.toList_ofList]
  · rw [String.toList_ofList]
    exact Literal.protected_iff.mp hbody
  · exact hlexeme.holdsOnly hunmarked (hwhole _)
  · exact hlexeme.holdsOnly hunmarked (hstream _)
  · rw [Literal.quote, Literal.quote, String.toList_ofList, hbody.body_eq]
  · rw [← Literal.body_eq_iff, ← String.toList_inj, String.toList_ofList]

end FormScript
