import FormScript.Proofs.Compiling.Bracketing
import FormScript.Proofs.Lowering.Tidiness

/-!
# Compiled texts and empty statements

A semicolon begins a comment and a brace is a token of its own, so the words of a program hold neither. What a
program of words and numbers compiles to has therefore no semicolons and no braces but those that the forms
write. None of them bounds an empty statement (`no_empty_statements`), except that the block of a loop over
members may end in a semicolon. A program in which `iter` does not occur has no such loop, and no empty
statement at all.
-/

namespace FormScript

namespace Sexp

/-- Neither a string nor a regular expression occurs in the expression. -/
def LiteralFree (e : Sexp) : Prop := e.Every fun a => a.isString = false ∧ a.isRegex = false

/-- No loop over members can come of the expression: `iter` does not occur in it. -/
def LoopFree (e : Sexp) : Prop := e.Every fun a => a.symbol? ≠ some Builtin.iteration.name

instance (e : Sexp) : Decidable e.LiteralFree := decidableEvery _ e

instance (e : Sexp) : Decidable e.LoopFree := decidableEvery _ e

end Sexp

theorem isTame_of_not_endsWord {c : Char} (h : endsWord c = false) : isTame c = true := by
  have hne : ∀ d : Char, endsWord d = true → c ≠ d := by
    rintro d hd rfl
    rw [h] at hd
    cases hd
  exact isTame_iff.mpr ⟨hne _ rfl, hne _ rfl, hne _ rfl⟩

/-- An expression of words and numbers brings no semicolons and no braces of its own. -/
theorem tame_of_read {loops : Prop} {text : String} {e : Sexp}
    (he : e ∈ (Reader.ofText text).readAll.expressions) (hliteral : e.LiteralFree)
    (hloops : ¬loops → e.LoopFree) : e.Every (tameAtom loops) := by
  have hreads : Reads fun _ e => e.Every fun a => a.isString = false ∧ a.isRegex = false →
      (a.symbol? = some Builtin.iteration.name → loops) → tameAtom loops a := by
    apply Reads.every
    rintro a ⟨cs, hcs⟩ ⟨hstring, hregex⟩ hiteration
    cases a with
    | number x => exact trivial
    | symbol name =>
      exact ⟨fun c hc => isTame_of_not_endsWord (hcs.symbol_chars rfl c hc),
        fun hname => hiteration (congrArg some hname)⟩
    | string content => cases hstring
    | regex pattern flags => cases hregex
    | group b items => exact trivial
  have hatoms := Sexp.Every.combine (fun a hlit htame => htame hlit) e hliteral
    (hreads.readAll text e he)
  by_cases h : loops
  · exact Sexp.Every.combine (fun a _ htame => htame fun _ => h) e hliteral hatoms
  · exact Sexp.Every.combine (fun a hfree htame => htame fun hname => absurd hname hfree) e (hloops h)
      hatoms

namespace Session

/-- Statements behind one another: all clashes are excused, and only a semicolon can stand last. -/
structure Ended (loops : Prop) (out : String) : Prop where
  orderly : Orderly loops out.toList
  last : ∀ c ∈ out.toList.getLast?, c = ';'

theorem Ended.statement {loops : Prop} {out text : String} (hout : Ended loops out)
    (htext : Tidy loops text) : Ended loops (out ++ Session.statement text) := by
  unfold Session.statement
  split
  · rw [String.append_empty]
    exact hout
  · rename_i hne
    have hchars : (out ++ (text ++ ";")).toList = out.toList ++ (text.toList ++ [';']) := by simp
    have hstatement : Orderly loops (text.toList ++ [';']) := by
      refine htext.orderly.append (.singleton _) fun front a b _ ha _ hclash => ?_
      exact absurd hclash (htext.border front ha b)
    constructor
    · rw [hchars]
      refine hout.orderly.append hstatement fun front a b back _ hb hclash => ?_
      -- the statement begins with the first character of its text
      have hhead : text.toList.head? = some b := by
        have hnil : text.toList ≠ [] := by simpa using hne
        rw [← List.head?_append_of_ne_nil text.toList hnil, hb, List.head?_cons]
      exact absurd hclash (htext.border_before hhead a)
    · intro c hc
      rw [hchars, ← List.append_assoc, List.getLast?_append] at hc
      cases hc
      rfl

/-- All clashes in a compiled text are excused. -/
theorem compiled_orderly {loops : Prop} {text out : String}
    (hatoms : ∀ e ∈ (Reader.ofText text).readAll.expressions, e.Every (tameAtom loops))
    (h : (Session.ofText text).compile.1 = .ok out) : Orderly loops out.toList := by
  have hcompile : (Session.ofText text).compile = (.ok out, (Session.ofText text).compile.2) := by
    rw [← h]
  obtain ⟨body, rfl, _, hlower⟩ := Session.lowerItems_of_compile hcompile
  have hitems : ∀ item ∈ (Reader.ofText text).readAll.items, item.expression.Every (tameAtom loops) :=
    fun item hitem => hatoms _ (List.mem_map_of_mem hitem)
  have hempty : Ended loops "" := ⟨.of_not_mem List.not_mem_nil, by simp⟩
  have hbody : Ended loops body :=
    lowerItems_kept (composes_tidy loops).kept (fun _ _ _ htext hout => hout.statement htext) hitems
      (Promise.knows_empty _) hempty hlower
  rw [String.toList_append]
  refine hbody.orderly.append (.singleton '\n') fun _ a b _ _ hb hclash => ?_
  cases hb
  rcases right_of_clash hclash with habsurd | ⟨_, habsurd⟩
  · exact absurd habsurd (by decide)
  · exact absurd habsurd (by decide)

end Session

/-- **No empty statements, loops over members apart.** What a program of words and numbers compiles to has no
    semicolon behind an opening brace and no two in a row, whatever parts of whatever forms leave no text. A
    semicolon in front of a closing brace ends the first statement in the block of a loop over members; where
    `iter` does not occur in the program there is none. -/
theorem no_empty_statements {text out : String}
    (hatoms : ∀ e ∈ (Reader.ofText text).readAll.expressions, e.LiteralFree)
    (h : (Session.ofText text).compile.1 = .ok out) :
    ¬['\x7b', ';'] <:+: out.toList ∧ ¬[';', ';'] <:+: out.toList
    ∧ (∀ front back, out.toList = front ++ ';' :: '\x7d' :: back →
        "\x7bvar val=obj_[key]".toList <:+ front)
    ∧ ((∀ e ∈ (Reader.ofText text).readAll.expressions, e.LoopFree) →
        ¬[';', '\x7d'] <:+: out.toList) := by
  have horderly : Orderly True out.toList :=
    Session.compiled_orderly (fun e he => tame_of_read he (hatoms e he) fun h => absurd trivial h) h
  have hexcused : ∀ {a b : Char}, (a, b) ≠ (';', '\x7d') → ∀ front, ¬Excused True front a b :=
    fun hne _ hexcused => hne hexcused.2.1
  refine ⟨?_, ?_, ?_, ?_⟩
  · exact horderly.not_infix (by decide) (hexcused (by decide))
  · exact horderly.not_infix (by decide) (hexcused (by decide))
  · intro front back hout
    exact (horderly front ';' '\x7d' back hout (by decide)).2.2
  · intro hfree
    have hstrict : Orderly False out.toList :=
      Session.compiled_orderly (fun e he => tame_of_read he (hatoms e he) fun _ => hfree e he) h
    exact hstrict.not_infix (by decide) fun _ hexcused => hexcused.1

/-- Parts that leave no text, in a loop and in a block. -/
theorem no_empty_statements_silent :
    (Session.ofText "(while (nop) c (macro m () 1)) (block (nop) b)").compile.1
      = .ok "(function()\x7bwhile(c)\x7b\x7d\x7d)();\x7bb\x7d;\n"
    ∧ ¬[';', '\x7d'] <:+: "(function()\x7bwhile(c)\x7b\x7d\x7d)();\x7bb\x7d;\n".toList := by
  generalize htext : "(while (nop) c (macro m () 1)) (block (nop) b)" = text
  generalize hout : "(function()\x7bwhile(c)\x7b\x7d\x7d)();\x7bb\x7d;\n" = out
  have hatoms : ∀ e ∈ (Reader.ofText text).readAll.expressions, e.LiteralFree := by
    subst htext
    decide +kernel
  have hfree : ∀ e ∈ (Reader.ofText text).readAll.expressions, e.LoopFree := by
    subst htext
    decide +kernel
  have hok : (Session.ofText text).compile.1 = .ok out := by
    subst htext hout
    exact ok_of_toOption (by decide +kernel)
  exact ⟨hok, (no_empty_statements hatoms hok).2.2.2 hfree⟩

/-- A loop over members whose body leaves no text. -/
theorem empty_statement_in_loop :
    (Session.ofText "(iter o (nop))").compile.1
      = .ok "(function(obj_)\x7bfor(var key in obj_)\x7bvar val=obj_[key];\x7d\x7d)(o);\n"
    ∧ [';', '\x7d'] <:+:
        "(function(obj_)\x7bfor(var key in obj_)\x7bvar val=obj_[key];\x7d\x7d)(o);\n".toList := by
  constructor
  · exact ok_of_toOption (by decide +kernel)
  · decide +kernel

end FormScript
