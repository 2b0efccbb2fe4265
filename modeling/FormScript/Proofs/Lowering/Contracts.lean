import FormScript.Proofs.Lowering.Demands
import FormScript.Proofs.Lowering.Fragment

/-!
# Contracts of the built-in forms

`catalogue` lists the built-in forms by name, each with the numbers of operands it takes and with whether a
label may stand before them. Lowering keeps to it (`builtin_contracts`): a wrong number of operands is
refused before any of them is looked at, and a right number is lowered exactly if the operands have the
shapes that the form requires and what it lowers of them is accepted in turn. Macro definitions are left
out; their rules are not about numbers alone.
-/

namespace FormScript

open Lowering

/-- The contract of a built-in form. -/
structure CatalogueLine where
  name : String
  /-- Whether a label may stand before the operands. -/
  labelled : Bool
  /-- How many operands there may be, the label not counted. -/
  arity : Arity
deriving DecidableEq

/-- The names of the infix operators. -/
def infixNames : List String :=
  ["and", "or", "=", "same", "!=", "+", "-", "*", "/", "%", "+=", "-=", "*=", "/=", "%=",
    "<", ">", "<=", ">=", "<<", ">>", ">>>", "&", "|", "^", "do"]

/-- The contracts of the built-in forms. -/
def catalogue : List CatalogueLine :=
  [⟨"_str", false, .atLeast 0⟩, ⟨"_arr", false, .atLeast 0⟩, ⟨"_obj", false, .evenAtLeast 0⟩,
    ⟨"fun", false, .atLeast 2⟩, ⟨"lam", false, .atLeast 1⟩, ⟨"closure", false, .atLeast 1⟩,
    ⟨"ret", false, .exactly 1⟩, ⟨"ifret", false, .exactly 2⟩, ⟨"get", false, .atLeast 2⟩,
    ⟨"set", false, .atLeast 3⟩, ⟨"def", false, .evenAtLeast 2⟩, ⟨"let", false, .evenAtLeast 2⟩,
    ⟨".", false, .atLeast 2⟩, ⟨"if", false, .between 2 3⟩, ⟨"cond", false, .atLeast 2⟩,
    ⟨"switch", false, .atLeast 3⟩, ⟨"while", true, .between 3 4⟩, ⟨"iter", true, .between 2 3⟩,
    ⟨"continue", false, .between 0 1⟩, ⟨"break", false, .between 0 1⟩,
    ⟨"try", false, .between 2 3⟩, ⟨"throw", false, .exactly 1⟩, ⟨"Error", false, .between 1 3⟩,
    ⟨"TypeError", false, .between 1 3⟩, ⟨"assert", false, .exactly 2⟩, ⟨"new", false, .atLeast 1⟩,
    ⟨"instanceof", false, .exactly 2⟩, ⟨"chain", false, .atLeast 2⟩, ⟨"fapply", false, .atLeast 2⟩,
    ⟨"xor", false, .atLeast 2⟩, ⟨"args", false, .exactly 1⟩, ⟨"block", false, .atLeast 1⟩,
    ⟨"nop", false, .atLeast 0⟩, ⟨"neg", false, .exactly 1⟩, ⟨"!", false, .exactly 1⟩,
    ⟨"quote", false, .atLeast 0⟩]
  ++ infixNames.map fun name => ⟨name, false, .atLeast 2⟩

/-- The expression is a label: a symbol with a colon at its end and something before the colon. -/
def Sexp.isLabel (e : Sexp) : Bool :=
  e.symbol?.any fun name => name.toList.getLast? = some ':' && name.toList.dropLast ≠ []

/-- The operands among the arguments of a form. -/
def CatalogueLine.operands (line : CatalogueLine) (args : List Sexp) : List Sexp :=
  if line.labelled && args.head?.any Sexp.isLabel then args.tail else args

namespace Builtin

/-- The line that says what the form does. -/
def line (form : Builtin) : CatalogueLine := ⟨form.name, form.takesLabel, form.arity⟩

/-- **The catalogue has one line for each form**, and it says what the form does. -/
theorem filter_catalogue {form : Builtin} (h : form ≠ .macroDefinition) :
    catalogue.filter (fun line => decide (line.name = form.name)) = [form.line] := by
  have hall : ∀ form ∈ Builtin.all, form ≠ .macroDefinition →
      catalogue.filter (fun line => decide (line.name = form.name)) = [form.line] := by
    decide +kernel
  exact hall form form.mem_all h

end Builtin

theorem Sexp.isLabel_symbol (name : String) : (Sexp.symbol name).isLabel = true
    ↔ 1 < name.length ∧ name.toList.getLast? = some ':' := by
  have hlength : name.toList.dropLast ≠ [] ↔ 1 < name.length := by
    rw [← List.length_pos_iff, List.length_dropLast, String.length_toList]
    omega
  simp only [isLabel, symbol?, Option.any_some, Bool.and_eq_true, decide_eq_true_eq, hlength]
  exact and_comm

theorem Forms.splitLabel_snd (args : List Sexp) :
    (splitLabel args).2 = if args.head?.any Sexp.isLabel then args.tail else args := by
  rcases args with _ | ⟨head, rest⟩
  · rfl
  · cases head with
    | symbol name =>
      simp only [splitLabel, List.head?_cons, Option.any_some, Sexp.isLabel_symbol]
      split
      · rfl
      · rfl
    | number | string | regex | group => rfl

namespace Builtin

theorem operands_line (form : Builtin) (args : List Sexp) :
    form.line.operands args = (form.split args).2 := by
  unfold CatalogueLine.operands split line
  cases form.takesLabel with
  | false => rfl
  | true =>
    rw [Bool.true_and, if_pos rfl]
    exact (Forms.splitLabel_snd args).symm

/-- A call of the form. -/
def call (form : Builtin) (args : List Sexp) : Sexp := .group .round (.symbol form.name :: args)

theorem layout_call (form : Builtin) (args : List Sexp) :
    (form.call args).layout = form.layout args := by
  simp only [call, Sexp.layout, ofName?_name]

theorem lowered_call_eq (form : Builtin) (args : List Sexp) {s : State} (hdepth : s.depth < maxLowering)
    (hname : s.registry.get? form.name = none) :
    (form.call args).lowered s = nested ((form.layout args).render Sexp.lowered) s := by
  rw [← layout_call]
  apply Sexp.lowered_of_no_call hdepth
  rw [call, Registry.callOf?, hname, Option.map_none]

theorem layout_of_violation {form : Builtin} {args : List Sexp}
    (h : ¬form.arity.Met (form.split args).2.length) :
    ∃ violation, form.layout args = .reject (.arity form violation) := by
  unfold layout
  dsimp only
  cases hviolation : form.arity.violation? (form.split args).2.length with
  | none => exact absurd (Arity.violation?_eq_none_iff.mp hviolation) h
  | some violation => exact ⟨violation, rfl⟩

theorem layout_of_met {form : Builtin} {args : List Sexp}
    (h : form.arity.Met (form.split args).2.length) :
    form.layout args = form.body (form.split args).1 (form.split args).2 := by
  unfold layout
  dsimp only
  rw [Arity.violation?_eq_none_iff.mpr h]

end Builtin

theorem Lowering.nested_ok_iff {x : Lowering String} {s : State} :
    (∃ text after, nested x s = (.ok text, after))
      ↔ ∃ text after, x { s with depth := s.depth + 1 } = (.ok text, after) := by
  unfold nested
  cases x { s with depth := s.depth + 1 } with
  | mk outcome after =>
    constructor
    · rintro ⟨text, after', hrun⟩
      cases hrun
      exact ⟨text, after, rfl⟩
    · rintro ⟨text, after', hrun⟩
      cases hrun
      exact ⟨text, _, rfl⟩

/-- **Rendering a form whose contract is kept**: it gives a text exactly if the operands have the shapes that
    are required of them and what the form lowers is accepted in turn. -/
theorem Builtin.render_ok_iff {form : Builtin} (hform : form ≠ .macroDefinition) {args : List Sexp}
    (hmet : form.arity.Met (form.split args).2.length) {lower : Sexp → Lowering String} {s : State} :
    (∃ text after, (form.layout args).render lower s = (.ok text, after))
      ↔ form.Shaped (form.split args).2
        ∧ ∃ after, Granted lower ((form.subtokens (form.split args).2).map .lower) s after := by
  have hfollows := follows_body hform (form.split args).1 hmet
  rw [layout_of_met hmet]
  constructor
  · rintro ⟨text, after, hrun⟩
    have hgranted := Layout.render_ok_iff.mp ⟨text, hrun⟩
    -- had the operands wrong shapes, a stop would have been granted
    have hshaped : form.Shaped (form.split args).2 := by
      apply Classical.byContradiction
      intro hno
      obtain ⟨problem, hstop⟩ := hfollows.stops hno
      exact hgranted.stop_not_mem _ hstop
    rw [hfollows.lowers hshaped] at hgranted
    exact ⟨hshaped, after, hgranted⟩
  · rintro ⟨hshaped, after, hgranted⟩
    rw [← hfollows.lowers hshaped] at hgranted
    obtain ⟨text, hrun⟩ := Layout.render_ok_iff.mpr hgranted
    exact ⟨text, after, hrun⟩

/-- **The built-in forms keep to the catalogue.** Each form but the macro definition has one line in it. Let
    the form be called where no macro has taken its name and one more expression has room. If the number
    of operands is not one that the line allows, the call fails with a violation of the form's contract and
    changes nothing, and it would do so however operands were lowered. If the number is allowed, the call
    is lowered exactly if the operands have the required shapes and what the form lowers of them is
    accepted, each expression in the state that those before it leave. -/
theorem builtin_contracts {form : Builtin} (hform : form ≠ .macroDefinition) :
    ∃ line, catalogue.filter (fun line => decide (line.name = form.name)) = [line] ∧
      ∀ (args : List Sexp) (s : State), s.depth < maxLowering → s.registry.get? form.name = none →
        (¬line.arity.Met (line.operands args).length →
          ∃ violation, (form.call args).lowered s = (.error (.arity form violation), s)
            ∧ ∀ lower t, (form.call args).layout.render lower t = (.error (.arity form violation), t))
        ∧ (line.arity.Met (line.operands args).length →
          ((∃ text after, (form.call args).lowered s = (.ok text, after))
            ↔ form.Shaped (line.operands args)
              ∧ ∃ after, Granted Sexp.lowered ((form.subtokens (line.operands args)).map .lower)
                  { s with depth := s.depth + 1 } after)) := by
  refine ⟨form.line, Builtin.filter_catalogue hform, ?_⟩
  intro args s hdepth hname
  rw [form.operands_line, form.lowered_call_eq args hdepth hname, form.layout_call]
  constructor
  · intro hviolated
    obtain ⟨violation, hlayout⟩ := Builtin.layout_of_violation hviolated
    rw [hlayout]
    exact ⟨violation, rfl, fun lower t => rfl⟩
  · intro hmet
    rw [nested_ok_iff]
    exact Builtin.render_ok_iff hform hmet

/-- A loop over members with a label: one operand is refused, and two are lowered. -/
theorem builtin_contracts_labelled :
    Builtin.iteration ≠ .macroDefinition
    ∧ (∃ violation, (Builtin.iteration.call [.symbol "outer:", .symbol "o"]).lowered .initial
        = (.error (.arity .iteration violation), .initial))
    ∧ ∃ text after,
        (Builtin.iteration.call [.symbol "outer:", .symbol "o", .symbol "b"]).lowered .initial
          = (.ok text, after) := by
  have hform : Builtin.iteration ≠ .macroDefinition := by decide
  obtain ⟨line, hline, hall⟩ := builtin_contracts hform
  rw [Builtin.filter_catalogue hform] at hline
  cases hline
  have hroom : State.initial.depth < maxLowering := by decide
  refine ⟨hform, ?_, ?_⟩
  · obtain ⟨hrefused, _⟩ := hall [.symbol "outer:", .symbol "o"] .initial hroom rfl
    have hone : Builtin.iteration.line.operands [.symbol "outer:", .symbol "o"] = [.symbol "o"] := rfl
    rw [hone] at hrefused
    obtain ⟨violation, hrun, _⟩ := hrefused (by simp [Builtin.line, Builtin.arity])
    exact ⟨violation, hrun⟩
  · obtain ⟨_, haccepted⟩ := hall [.symbol "outer:", .symbol "o", .symbol "b"] .initial hroom rfl
    have htwo : Builtin.iteration.line.operands [.symbol "outer:", .symbol "o", .symbol "b"]
        = [.symbol "o", .symbol "b"] := rfl
    rw [htwo] at haccepted
    apply (haccepted (by simp [Builtin.line, Builtin.arity])).mpr
    exact ⟨trivial, ⟨.empty, 1, 0⟩, .lower rfl (.lower rfl .nil)⟩

end FormScript
