import FormScript.Proofs.Compiling.Items
import FormScript.Proofs.Compiling.Registries
import FormScript.Proofs.Reading.Nesting

/-!
# The limits of nesting fit together

The reader and the lowering each have a limit of their own. Lowering goes into the elements of an
expression, or into the elements of these, with one room less each time, so an expression needs no more
room than its groups nest, and one more (`Sexp.lower_spares`). Only expansions of macros nest deeper than
what they come from. What the reader lets through therefore never meets the limit of lowering, as long as
no macro is defined.
-/

namespace FormScript

theorem Sexp.nesting_lt_of_mem {b : Bracket} {items : List Sexp} {e : Sexp} (he : e ∈ items) :
    e.nesting < (group b items).nesting := by
  rw [nesting]
  exact Nat.lt_succ_of_le (nestings_le_iff.mp (Nat.le_refl _) e he)

/-- The text of the fault is its own. -/
theorem Misshape.eq_nestedTooDeeply {problem : Misshape}
    (h : problem.message = "forms nested too deeply") : ∃ kind, problem = .nestedTooDeeply kind := by
  cases problem with
  | nestedTooDeeply kind => exact ⟨kind, rfl⟩
  | callHead kind =>
    have hmessage : "invalid function head: " ++ kind = "forms nested too deeply" := h
    have hi : "invalid function head: ".toList.head? = some 'i' := rfl
    have hf : "forms nested too deeply".toList.head? = some 'f' := rfl
    have hfirst := congrArg (fun s : String => s.toList.head?) hmessage
    simp only [String.toList_append, List.head?_append, hi, hf] at hfirst
    cases hfirst
  | jumpLabel jump => exact absurd h (show "label must be a symbol" ≠ _ by decide)
  | _ => exact absurd h (by decide)

namespace Lowering

variable {α β : Type}

/-- Without macros, the computation defines none, and does not fail because too many expressions are
    under way. -/
def Spares (x : Lowering α) : Prop :=
  ∀ s : State, s.registry = .empty →
    (x s).2.registry = .empty ∧ ∀ kind, (x s).1 ≠ .error (.shape (.nestedTooDeeply kind))

theorem spares_pure (a : α) : Spares (pure a : Lowering α) := by
  intro s hs
  refine ⟨hs, ?_⟩
  intro kind h
  cases h

theorem spares_fail {fault : Fault} (hlocal : fault.isLocal = true) :
    Spares (fail fault : Lowering α) := by
  intro s hs
  refine ⟨hs, ?_⟩
  intro kind h
  cases h
  cases hlocal

theorem Spares.bind {x : Lowering α} {f : α → Lowering β} (hx : Spares x) (hf : ∀ a, Spares (f a)) :
    Spares (x >>= f) := by
  intro s hs
  obtain ⟨hempty, hfault⟩ := hx s hs
  cases hrun : x s with
  | mk outcome after =>
    rw [hrun] at hempty hfault
    cases outcome with
    | error fault =>
      rw [bind_of_error hrun]
      refine ⟨hempty, ?_⟩
      intro kind h
      cases h
      exact hfault kind rfl
    | ok a =>
      rw [bind_of_ok hrun]
      exact hf a after hempty

theorem Spares.nested {body : Lowering α} (h : Spares body) : Spares (nested body) :=
  fun s hs => h { s with depth := s.depth + 1 } hs

end Lowering

open Lowering

/-- Rendering defines nothing where the keyword of definitions does not occur. -/
theorem Layout.render_spares {P : Sexp → Prop} {lower : Sexp → Lowering String}
    (hkeyword : ¬ P (.symbol Builtin.macroDefinition.name)) (hlower : ∀ e, P e → Spares (lower e))
    {L : Layout} (hL : L.Consists P) : Spares (L.render lower) := by
  induction L with
  | text s => exact spares_pure s
  | operand e => exact hlower e hL
  | wrap how part ih => exact (ih hL).bind fun s => spares_pure _
  | join how first second ihfirst ihsecond =>
    exact (ihfirst hL.1).bind fun s => (ihsecond hL.2).bind fun t => spares_pure _
  | reject fault => exact spares_fail hL
  | define m => exact absurd hL.keyword hkeyword

namespace Sexp

/-- **An expression is lowered in as much room as its groups nest, and one more.** The induction is on the
    room, and the elements of an expression nest less than it does. -/
theorem lower_spares {room : Nat} {e : Sexp} (he : e.Within NoDefinition) (hroom : e.nesting < room) :
    Spares (e.lower room) := by
  induction room generalizing e with
  | zero => exact absurd hroom (Nat.not_lt_zero _)
  | succ room ih =>
    have hereditary : Hereditary fun x => x.Within NoDefinition ∧ x.nesting < room := by
      rintro b items ⟨hwithin, hnesting⟩ x hx
      exact ⟨within_group.mp hwithin x hx, Nat.lt_trans (nesting_lt_of_mem hx) hnesting⟩
    have hlayout : e.layout.Consists fun x => x.Within NoDefinition ∧ x.nesting < room := by
      apply consists_layout_of_elements hereditary
      rintro b items rfl x hx
      have hless := nesting_lt_of_mem (b := b) hx
      exact ⟨within_group.mp he x hx, by omega⟩
    have hkeyword : ¬ ((symbol Builtin.macroDefinition.name).Within NoDefinition
        ∧ (symbol Builtin.macroDefinition.name).nesting < room) := by
      rintro ⟨hwithin, _⟩
      exact within_symbol.mp hwithin rfl
    have hrender := Layout.render_spares hkeyword (fun x hx => ih hx.1 hx.2) hlayout
    intro s hs
    rw [lower_of_bare hs]
    exact hrender.nested s hs

/-- With nothing under way there is room for everything that can be read. -/
theorem lowered_spares {e : Sexp} (he : e.Within NoDefinition) (hnesting : e.nesting ≤ maxNesting)
    {s : State} (hempty : s.registry = .empty) (hidle : s.depth = 0) :
    (e.lowered s).2.registry = .empty ∧ (e.lowered s).2.depth = 0
      ∧ ∀ kind, (e.lowered s).1 ≠ .error (.shape (.nestedTooDeeply kind)) := by
  have hroom : e.nesting < maxLowering - s.depth := by
    rw [hidle]
    exact Nat.lt_of_le_of_lt hnesting (by decide)
  obtain ⟨hregistry, hfault⟩ := lower_spares he hroom s hempty
  exact ⟨hregistry, (e.lowered_steady s).1.trans hidle, hfault⟩

end Sexp

namespace Session

theorem lowerItems_spares {items : List Located}
    (hwithin : ∀ item ∈ items, item.expression.Within NoDefinition)
    (hnesting : ∀ item ∈ items, item.expression.nesting ≤ maxNesting) {state : State}
    (hempty : state.registry = .empty) (hidle : state.depth = 0) (out : String) (position : Position)
    (kind : String) :
    (lowerItems state out items).1 ≠ .error ⟨position, .refused (.shape (.nestedTooDeeply kind))⟩ := by
  induction items generalizing state out with
  | nil =>
    intro h
    cases h
  | cons item items ih =>
    obtain ⟨hitem, hitems⟩ := List.forall_mem_cons.mp hwithin
    obtain ⟨hfits, hothers⟩ := List.forall_mem_cons.mp hnesting
    obtain ⟨hregistry, hdepth, hfault⟩ := Sexp.lowered_spares hitem hfits hempty hidle
    simp only [lowerItems]
    cases hlower : item.expression.lowered state with
    | mk outcome after =>
      rw [hlower] at hregistry hdepth hfault
      cases outcome with
      | error fault =>
        intro h
        cases h
        exact hfault kind rfl
      | ok text => exact ih hitems hothers hregistry hdepth _

end Session

/-- **The limits of nesting fit together.** Wherever a reader stands, its next reading fails because of the
    nesting exactly if, in the expression that begins there, an opening bracket is met while a hundred
    brackets of it are open; it then stands on such a bracket. What it gives nests a hundred deep at most. And
    compiling a source in a new session, if none of its expressions speaks of `macro`, never fails because the
    forms are nested too deeply to be lowered. -/
theorem nesting_limits_fit (r : Reader) (source : Source) :
    ((∃ after : Reader, r.read = (.error (.ofFault .nestedTooDeeply after.source.describe), after))
        ↔ ∃ place, OpensWithin 100 r.source.cursor.skipGap.rest place)
      ∧ (∀ after : Reader,
        r.read = (.error (.ofFault .nestedTooDeeply after.source.describe), after) →
          OpensWithin 100 r.source.cursor.skipGap.rest after.rest)
      ∧ (∀ e after, r.read = (.ok (some e), after) → e.nesting ≤ 100)
      ∧ ((∀ e ∈ (Reader.ofSource source).readAll.expressions, "macro" ∉ e.symbols) →
        ∀ position problem, (Session.ofSource source).compile.1
            = .error ⟨position, .refused (.shape problem)⟩ →
          problem.message ≠ "forms nested too deeply") := by
  refine ⟨r.read_tooDeep_iff, fun after => Reader.opensWithin_of_read,
    fun e after => Reader.nesting_le_of_read, ?_⟩
  intro hmacro position problem hcompile hmessage
  obtain ⟨kind, rfl⟩ := Misshape.eq_nestedTooDeeply hmessage
  have hwithin : ∀ item ∈ (Reader.ofSource source).readAll.items,
      item.expression.Within NoDefinition := by
    rintro item hitem _ hname rfl
    exact hmacro item.expression (List.mem_map_of_mem hitem) hname
  have hnesting : ∀ item ∈ (Reader.ofSource source).readAll.items,
      item.expression.nesting ≤ maxNesting := by
    intro item hitem
    exact Reader.nesting_le_of_readAll _ item.expression (List.mem_map_of_mem hitem)
  rcases Session.compileFrom_error hcompile with hlower | ⟨error, _, hunreadable⟩
  · exact Session.lowerItems_spares hwithin hnesting rfl rfl "" position kind hlower
  · cases hunreadable

/-- A hundred brackets, and behind them others in a string, a regular expression and a comment. -/
def overfull : List Char := List.replicate 100 '(' ++ "\"(\" /(/ ; (\n [".toList

/-- Negations around an empty form, a hundred deep. -/
def deepRefusal : List Char :=
  (List.replicate 99 "(! ".toList).flatten ++ "()".toList ++ List.replicate 99 ')'

/-- The bracket behind the comment is one too many. The empty form is found at the bottom. -/
theorem nesting_limits_fit_at_the_limit :
    (∃ after : Reader, (Reader.ofSource (.ofText overfull)).read
          = (.error (.ofFault .nestedTooDeeply after.source.describe), after)
        ∧ after.rest = ['['] ∧ OpensWithin 100 overfull after.rest)
      ∧ (∀ e ∈ (Reader.ofSource (.ofText deepRefusal)).readAll.expressions,
        e.nesting = 100 ∧ "macro" ∉ e.symbols)
      ∧ (Session.ofSource (.ofText deepRefusal)).compile.1.mapError CompileError.message
        = .error "line 1, column 1: (): empty form"
      ∧ ∀ position problem, (Session.ofSource (.ofText deepRefusal)).compile.1
          = .error ⟨position, .refused (.shape problem)⟩ →
        problem.message ≠ "forms nested too deeply" := by
  obtain ⟨_, hstands, _, hspared⟩ :=
    nesting_limits_fit (.ofSource (.ofText overfull)) (.ofText deepRefusal)
  have hexpressions : ∀ e ∈ (Reader.ofSource (.ofText deepRefusal)).readAll.expressions,
      e.nesting = 100 ∧ "macro" ∉ e.symbols := by decide +kernel
  refine ⟨?_, hexpressions, by decide +kernel, hspared fun e he => (hexpressions e he).2⟩
  have hskip : (Source.ofText overfull).cursor.skipGap.rest = overfull := by decide +kernel
  have hrest : (Reader.ofSource (.ofText overfull)).read.2.rest = ['['] := by decide +kernel
  have hfails : (Reader.ofSource (.ofText overfull)).read.1.map Option.isSome
      = .error (.ofFault .nestedTooDeeply
        (Reader.ofSource (.ofText overfull)).read.2.source.describe) := by decide +kernel
  cases hread : (Reader.ofSource (.ofText overfull)).read with
  | mk outcome after =>
    rw [hread] at hfails hrest
    cases outcome with
    | ok result => cases hfails
    | error error =>
      have herror : error = .ofFault .nestedTooDeeply after.source.describe := Except.error.inj hfails
      subst herror
      have hopens : OpensWithin 100 (Source.ofText overfull).cursor.skipGap.rest after.rest :=
        hstands after hread
      rw [hskip] at hopens
      exact ⟨after, rfl, hrest, hopens⟩

end FormScript
