import FormScript.Proofs.Macro.Expansion

/-!
# The names that an expression speaks of

`Sexp.symbols` are the names of the symbols in an expression. An expression is `Within` a set of names if
all of them are in the set. Evaluation makes up no symbol but `true`, `false` and `null`; so a set with
these three that holds the names of a macro body and of the arguments of a call also holds the names of
the expansion (`Macro.expand_within`).
-/

namespace FormScript

namespace Sexp

mutual

/-- The names of the symbols in an expression, from left to right. -/
def symbols : Sexp → List String
  | .number _ => []
  | .symbol name => [name]
  | .string _ => []
  | .regex _ _ => []
  | .group _ items => symbolsIn items

/-- The names of the symbols in expressions. -/
def symbolsIn : List Sexp → List String
  | [] => []
  | e :: es => symbols e ++ symbolsIn es

end

/-- All symbols of the expression have names in the set. -/
def Within (S : String → Prop) (e : Sexp) : Prop := ∀ name ∈ e.symbols, S name

/-- A symbol has its name in the set. -/
def NameIn (S : String → Prop) : Sexp → Prop
  | .symbol name => S name
  | _ => True

variable {S : String → Prop}

theorem mem_symbolsIn {name : String} {es : List Sexp} :
    name ∈ symbolsIn es ↔ ∃ e ∈ es, name ∈ e.symbols := by
  induction es with
  | nil => simp [symbolsIn]
  | cons e es ih => simp [symbolsIn, ih]

@[simp] theorem within_symbol {name : String} : (symbol name).Within S ↔ S name := by
  simp [Within, symbols]

@[simp] theorem within_group {b : Bracket} {items : List Sexp} :
    (group b items).Within S ↔ ∀ e ∈ items, e.Within S := by
  simp only [Within, symbols, mem_symbolsIn]
  constructor
  · intro h e he name hname
    exact h name ⟨e, he, hname⟩
  · rintro h name ⟨e, he, hname⟩
    exact h e he name hname

mutual

/-- The names of an expression are in the set if each of its atoms is a symbol with its name there, or
    no symbol. -/
theorem within_iff_every (e : Sexp) : e.Within S ↔ e.Every (NameIn S) := by
  cases e with
  | number x => simp [Within, symbols, NameIn]
  | symbol name => simp [NameIn]
  | string content => simp [Within, symbols, NameIn]
  | regex pattern flags => simp [Within, symbols, NameIn]
  | group b items =>
    rw [within_group, every_group]
    exact forall_within_iff items

theorem forall_within_iff (es : List Sexp) :
    (∀ e ∈ es, e.Within S) ↔ ∀ e ∈ es, e.Every (NameIn S) := by
  cases es with
  | nil => simp
  | cons e es =>
    rw [List.forall_mem_cons, List.forall_mem_cons]
    exact and_congr (within_iff_every e) (forall_within_iff es)

end

end Sexp

/-- The names that evaluation makes up are in the set. -/
structure Vocabulary (S : String → Prop) : Prop where
  yes : S "true"
  no : S "false"
  null : S "null"

theorem Vocabulary.closed {S : String → Prop} (h : Vocabulary S) : Sexp.Closed (Sexp.NameIn S) where
  number := fun _ => trivial
  yes := h.yes
  no := h.no
  null := h.null

/-- **An expansion speaks of what the macro and the call speak of**, and of `true`, `false` and `null`. -/
theorem Macro.expand_within {S : String → Prop} (hS : Vocabulary S) {m : Macro}
    (hbody : ∀ e ∈ m.body, e.Within S) {args : List Sexp} (hargs : ∀ e ∈ args, e.Within S) {e : Sexp}
    (h : m.expand args = .ok e) : e.Within S := by
  rw [Sexp.forall_within_iff] at hbody hargs
  exact (Sexp.within_iff_every e).mpr (Macro.expand_every hS.closed hbody hargs h)

end FormScript
