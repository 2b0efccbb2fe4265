import FormScript.Proofs.Compiling.Concatenation
import FormScript.Proofs.Lowering.BracketedForms
import FormScript.Proofs.Reading.Atoms

/-!
# Compiled texts are well bracketed

A symbol that is read holds no bracket and no double quote, since these end a word. So a program without
regular expressions is clean, and what it compiles to is well bracketed, macros or no macros. A regular
expression would be copied into the lowered text as it stands, with any brackets and quotes in it.
-/

namespace FormScript

/-! ## What is read is clean -/

theorem isPlain_of_not_endsWord {c : Char} (h : endsWord c = false) : isPlain c = true := by
  simp only [endsWord, Bool.or_eq_false_iff, decide_eq_false_iff_not, Option.isSome_eq_false_iff,
    Option.isNone_iff_eq_none] at h
  obtain ⟨⟨⟨⟨⟨_, hquote⟩, _⟩, _⟩, hopen⟩, hclose⟩ := h
  simp [isPlain, hquote, hopen, hclose]

/-- A symbol that is read holds no bracket and no double quote. -/
theorem Lexeme.plain_symbol {cs : List Char} {a : Sexp} (h : Lexeme cs a) {name : String}
    (ha : a = .symbol name) : ∀ c ∈ name.toList, isPlain c = true :=
  fun c hc => isPlain_of_not_endsWord (h.symbol_chars ha c hc)

namespace Sexp

def isRegex : Sexp → Bool
  | .regex _ _ => true
  | _ => false

/-- No regular expression occurs in the expression. -/
def RegexFree (e : Sexp) : Prop := e.Every fun a => a.isRegex = false

instance (e : Sexp) : Decidable e.RegexFree := decidableEvery _ e

end Sexp

/-- An expression that is read is clean if no regular expression occurs in it. -/
theorem clean_of_read {text : String} {e : Sexp}
    (he : e ∈ (Reader.ofText text).readAll.expressions) (hregex : e.RegexFree) : e.Clean := by
  have hreads : Reads fun _ e => e.Every fun a => a.isRegex = false → cleanAtom a := by
    apply Reads.every
    rintro a ⟨cs, hcs⟩ hnot
    cases a with
    | number x => exact trivial
    | symbol name => exact hcs.plain_symbol rfl
    | string content => exact trivial
    | regex pattern flags => cases hnot
    | group b items => exact trivial
  have hatoms := hreads.readAll text e he
  exact Sexp.Every.combine (fun a hnot hclean => hclean hnot) e hregex hatoms

/-! ## Lowering a program -/

namespace Session

theorem balanced_statement {text : String} (h : Balanced text) : Balanced (statement text) := by
  unfold statement
  split
  · exact Balanced.empty
  · exact h.append fun _ => rfl

/-- Clean expressions are lowered one after the other to a balanced text. -/
theorem lowerItems_balanced {items : List Located} (hitems : ∀ item ∈ items, item.expression.Clean)
    {state after : Lowering.State} (hstate : bracketing.Knows state.registry) {out body : String}
    (hout : Balanced out) (h : lowerItems state out items = (.ok body, after)) : Balanced body := by
  refine lowerItems_kept bracketing_kept (fun e text out htext hout => ?_) hitems hstate hout h
  exact Balanced.append hout (balanced_statement htext)

end Session

/-- **What a program without regular expressions compiles to is well bracketed.** -/
theorem compiled_wellBracketed {text out : String}
    (hregex : ∀ e ∈ (Reader.ofText text).readAll.expressions, e.RegexFree)
    (h : (Session.ofText text).compile.1 = .ok out) : WellBracketed out := by
  have hcompile : (Session.ofText text).compile = (.ok out, (Session.ofText text).compile.2) := by
    rw [← h]
  obtain ⟨body, rfl, _, hlower⟩ := Session.lowerItems_of_compile hcompile
  have hclean : ∀ item ∈ (Reader.ofText text).readAll.items, item.expression.Clean := by
    intro item hitem
    have hmem : item.expression ∈ (Reader.ofText text).readAll.expressions :=
      List.mem_map_of_mem hitem
    exact clean_of_read hmem (hregex _ hmem)
  have hbody := Session.lowerItems_balanced hclean bracketing.knows_empty Balanced.empty hlower
  exact (hbody.append fun _ => rfl).wellBracketed

/-- Brackets and quotes inside strings, in an argument of a macro and outside of one. -/
theorem compiled_wellBracketed_macro :
    (Session.ofText "(macro both (x) [x (quote (f x))])\n(both \"a)\\\"[\") (if (both 1) '(' (. o (m 2)))"
      ).compile.1 = .ok "[\"a)\\\"[\",(f(x))];([1,(f(x))]?\"(\":(o.m(2)));\n"
      ∧ WellBracketed "[\"a)\\\"[\",(f(x))];([1,(f(x))]?\"(\":(o.m(2)));\n" := by
  generalize htext :
    "(macro both (x) [x (quote (f x))])\n(both \"a)\\\"[\") (if (both 1) '(' (. o (m 2)))" = text
  have hregex : ∀ e ∈ (Reader.ofText text).readAll.expressions, e.RegexFree := by
    subst htext
    decide +kernel
  have hok : (Session.ofText text).compile.1
      = .ok "[\"a)\\\"[\",(f(x))];([1,(f(x))]?\"(\":(o.m(2)));\n" := by
    subst htext
    exact ok_of_toOption (by decide +kernel)
  exact ⟨hok, compiled_wellBracketed hregex hok⟩

end FormScript
