import FormScript.Proofs.Lowering.Bracketing
import FormScript.Proofs.Lowering.Composition

/-!
# Every form is lowered to a balanced text

An expression is `Clean` when it holds no regular expression and no symbol with a bracket or a double
quote in it. Balanced texts stay balanced where forms put them together (`composes_balanced`), so clean
expressions are lowered to balanced texts, and macros whose bodies are clean keep it that way
(`bracketing_kept`).
-/

namespace FormScript

/-- An atom that brings no bracket and no double quote into a text, literals apart. -/
def cleanAtom : Sexp → Prop
  | .symbol name => ∀ c ∈ name.toList, isPlain c = true
  | .regex _ _ => False
  | _ => True

/-- All atoms are clean. -/
def Sexp.Clean (e : Sexp) : Prop := e.Every cleanAtom

open Sexp

theorem closed_cleanAtom : Closed cleanAtom where
  number := fun _ => trivial
  yes := List.all_eq_true.mp (by decide)
  no := List.all_eq_true.mp (by decide)
  null := List.all_eq_true.mp (by decide)

/-- A label is the name of a symbol, with or without its last character. -/
theorem balanced_labelName {label : String} (h : ∀ c ∈ label.toList, isPlain c = true) :
    Balanced (Forms.labelName label) := by
  unfold Forms.labelName
  split
  · apply neutral_of_plain
    rw [String.toList_ofList]
    exact fun c hc => h c (List.dropLast_subset _ hc)
  · exact neutral_of_plain h

theorem balanced_atom {a : Sexp} (h : cleanAtom a) (hatom : a.elements? = none) : Balanced a.text := by
  cases a with
  | number x => exact balanced_number x
  | symbol name => exact neutral_of_plain h
  | string content => exact balanced_quote content
  | regex pattern flags => exact absurd h id
  | group b items => cases hatom

/-- **Balanced texts are balanced when forms have put them together.** -/
theorem composes_balanced : Composes cleanAtom Balanced where
  fixed := by
    have hall : fixedTexts.all (fun s => decide (WellBracketed s)) = true := by decide +kernel
    intro s hs
    exact WellBracketed.balanced (of_decide_eq_true (List.all_eq_true.mp hall s hs))
  append := Balanced.append
  between := fun b _ hs => hs.between b
  sequence := fun hs _ ht _ => hs.append (Balanced.append (fun _ => rfl) ht)
  members := by
    intro _ s hs
    have hblock : Balanced ("var val=obj_[key];" ++ s) := Balanced.append (fun _ => rfl) hs
    exact hblock.between .curly
  atom := balanced_atom
  label := balanced_labelName
  words := fun _ => balanced_quote _
  quotation := fun _ => balanced_quoteVerbatim _
  closed := closed_cleanAtom

/-- Clean expressions have balanced texts, and so have their expansions. -/
def bracketing : Promise := composing cleanAtom Balanced

/-- **Lowering makes balanced texts of clean expressions**, whatever macros with clean bodies are
    known. -/
theorem bracketing_kept : bracketing.Kept := composes_balanced.kept

end FormScript
