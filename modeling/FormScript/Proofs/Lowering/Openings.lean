import FormScript.Proofs.Lowering.Contracts
import FormScript.Proofs.Number.RoundTrip

/-!
# How lowered texts begin

An expression that calls a macro is lowered as the macro's expansion, which may be a call again.
`Settles` follows the calls to an expression that is none, and how the text begins can be seen from that
one (`Sexp.Begins`): an atom is written as it stands, `nop` and macro definitions leave no text, and every
other form begins with a bracket or with a double quote.
-/

namespace FormScript

open Lowering

/-! ## What is lowered in the place of a macro call -/

/-- Expanding the macro calls at the root of the first expression leads to the second, which is no call. -/
inductive Settles (r : Registry) : Sexp → Sexp → Prop where
  | done {e : Sexp} : r.callOf? e = none → Settles r e e
  | expand {e expanded settled : Sexp} {m : Macro} {args : List Sexp} : r.callOf? e = some (m, args) →
      m.expand args = .ok expanded → Settles r expanded settled → Settles r e settled

theorem Settles.unique {r : Registry} {e settled settled' : Sexp} (h : Settles r e settled)
    (h' : Settles r e settled') : settled = settled' := by
  induction h with
  | done hnone =>
    cases h' with
    | done _ => rfl
    | expand hcall _ _ =>
      rw [hnone] at hcall
      cases hcall
  | expand hcall hexpand _ ih =>
    cases h' with
    | done hnone =>
      rw [hnone] at hcall
      cases hcall
    | expand hcall' hexpand' hrest =>
      rw [hcall] at hcall'
      cases hcall'
      rw [hexpand] at hexpand'
      cases hexpand'
      exact ih hrest

namespace Lowering

theorem ok_of_nested {x : Lowering String} {s after : State} {text : String}
    (h : nested x s = (.ok text, after)) :
    ∃ inner, x { s with depth := s.depth + 1 } = (.ok text, inner) := by
  unfold nested at h
  cases hrun : x { s with depth := s.depth + 1 } with
  | mk outcome inner =>
    rw [hrun] at h
    cases h
    exact ⟨inner, rfl⟩

theorem ok_of_expanding {name : String} {x : Lowering String} {s after : State} {text : String}
    (h : expanding name x s = (.ok text, after)) :
    ∃ inner, x { s with expansions := s.expansions + 1 } = (.ok text, inner) := by
  unfold expanding at h
  split at h
  · cases hrun : x { s with expansions := s.expansions + 1 } with
    | mk outcome inner =>
      rw [hrun] at h
      cases h
      exact ⟨inner, rfl⟩
  · cases h

end Lowering

/-- The text of an expression is rendered from the layout of what the expression settles to. -/
theorem Sexp.settles_of_lower {room : Nat} {e : Sexp} {s after : State} {text : String}
    (h : e.lower room s = (.ok text, after)) :
    ∃ settled inner before between, Settles s.registry e settled
      ∧ settled.layout.render (Sexp.lower inner) before = (.ok text, between) := by
  induction room generalizing e s after with
  | zero => cases h
  | succ room ih =>
    obtain ⟨inner, hinner⟩ := ok_of_nested h
    obtain ⟨registry, between, hregistry, hrest⟩ := Lowering.ok_of_bind hinner
    cases hregistry
    cases hcall : s.registry.callOf? e with
    | none =>
      simp only [hcall] at hrest
      exact ⟨e, room, _, _, .done hcall, hrest⟩
    | some call =>
      obtain ⟨m, args⟩ := call
      simp only [hcall] at hrest
      cases hexpand : m.expand args with
      | error error =>
        simp only [hexpand] at hrest
        cases hrest
      | ok expanded =>
        simp only [hexpand] at hrest
        obtain ⟨_, hlower⟩ := ok_of_expanding hrest
        obtain ⟨settled, inner, before, between, hsettles, hrender⟩ := ih hlower
        exact ⟨settled, inner, before, between, .expand hcall hexpand hsettles, hrender⟩

/-! ## Forms that begin with a bracket or a double quote -/

/-- The brackets that open a group, and the double quote. -/
def isOpening (c : Char) : Bool := c = '"' || (Bracket.ofOpening? c).isSome

namespace Layout

/-- The text begins with a bracket or a double quote, if there is any. -/
def opens : Layout → Bool
  | .text s => s.toList.head?.any isOpening
  | .join .adjacent first _ => first.opens
  | .join .behind _ second => second.opens
  | .reject _ => true
  | _ => false

theorem head_of_opens {lower : Sexp → Lowering String} {L : Layout} (hL : L.opens = true)
    {s after : State} {text : String} (h : L.render lower s = (.ok text, after)) :
    ∃ c, text.toList.head? = some c ∧ isOpening c = true := by
  induction L generalizing s after text with
  | text t =>
    cases h
    rw [opens] at hL
    cases hhead : t.toList.head? with
    | none =>
      rw [hhead] at hL
      cases hL
    | some c =>
      rw [hhead] at hL
      exact ⟨c, rfl, hL⟩
  | operand e => cases hL
  | wrap how part ih => cases hL
  | join how first second ihfirst ihsecond =>
    obtain ⟨t, between, hfirst, hrest⟩ := ok_of_bind h
    obtain ⟨u, after', hsecond, hlast⟩ := ok_of_bind hrest
    cases hlast
    cases how with
    | adjacent =>
      obtain ⟨c, hc, hopening⟩ := ihfirst hL hfirst
      refine ⟨c, ?_, hopening⟩
      rw [Joint.apply, String.toList_append, List.head?_append, hc, Option.some_or]
    | behind =>
      obtain ⟨c, hc, hopening⟩ := ihsecond hL hsecond
      refine ⟨c, ?_, hopening⟩
      rw [Joint.apply, String.toList_append, List.head?_append, hc, Option.some_or]
    | statements => cases hL
  | reject fault => cases h
  | define m => cases hL

theorem opens_quote (content : String) : (text (Literal.quote content)).opens = true := by
  rw [opens, Literal.quote, String.toList_ofList]
  rfl

theorem opens_quoteVerbatim (content : String) : (text (Literal.quoteVerbatim content)).opens = true := by
  rw [opens, Literal.quoteVerbatim, String.toList_ofList]
  rfl

end Layout

namespace Builtin

open Layout

theorem opens_passThrough (items : List Sexp) : (Forms.passThrough items).opens = true := by
  cases items with
  | nil => rfl
  | cons value functions =>
    -- every function puts what is inside it into parentheses
    have hpass : ∀ (functions : List Sexp) (inner : Layout), inner.opens = true →
        (functions.foldl (fun inner f => parens (.join .behind inner (Forms.passedFunction f)))
          inner).opens = true := by
      intro functions
      induction functions with
      | nil => exact fun inner hinner => hinner
      | cons f rest ih => exact fun inner _ => ih _ rfl
    exact hpass functions _ rfl

theorem opens_function (items : List Sexp) : (Forms.function items).opens = true := by
  unfold Forms.function
  split
  · split <;> rfl
  · rfl
  · rfl

theorem opens_declare (items : List Sexp) : (Forms.declare items).opens = true := by
  unfold Forms.declare
  split <;> rfl

theorem opens_store (items : List Sexp) : (Forms.store items).opens = true := by
  unfold Forms.store
  split
  · split <;> rfl
  · rfl

theorem opens_construct (items : List Sexp) : (Forms.construct items).opens = true := by
  unfold Forms.construct
  split <;> rfl

theorem opens_instanceTest (items : List Sexp) : (Forms.instanceTest items).opens = true := by
  unfold Forms.instanceTest
  split
  · split <;> rfl
  · rfl

theorem opens_jump (form : Builtin) (items : List Sexp) : (Forms.jump form items).opens = true := by
  unfold Forms.jump
  split <;> rfl

/-- A form that leaves no text. -/
def isSilent : Builtin → Bool
  | .nothing => true
  | .macroDefinition => true
  | _ => false

theorem opens_body {form : Builtin} (h : form.isSilent = false) (label : String) (items : List Sexp) :
    (form.body label items).opens = true := by
  cases form with
  | nothing => cases h
  | macroDefinition => cases h
  | words => exact opens_quote _
  | quotation => exact opens_quoteVerbatim _
  | passThrough => exact opens_passThrough items
  | arrayOf | objectOf | unary | closure | assign | branches | block | raiseError | raiseTypeError
    | exclusiveOr => rfl
  | giveBack | giveBackIf | argument | chain | index | member | conditional | cases | loop | iteration
    | attempt | raise | assertion | negation | complement | operator =>
    -- what these forms look at is how many operands there are
    rcases items with _ | ⟨_, _ | ⟨_, _ | ⟨_, _ | ⟨_, _ | _⟩⟩⟩⟩ <;> rfl
  | function => exact opens_function items
  | declare => exact opens_declare items
  | store => exact opens_store items
  | construct => exact opens_construct items
  | instanceTest => exact opens_instanceTest items
  | skip => exact opens_jump _ items
  | leave => exact opens_jump _ items

theorem opens_layout {form : Builtin} (h : form.isSilent = false) (args : List Sexp) :
    (form.layout args).opens = true := by
  unfold layout
  dsimp only
  split
  · rfl
  · exact opens_body h _ _

/-- A silent form leaves no text, if it is accepted at all. -/
theorem eq_empty_of_silent {form : Builtin} (h : form.isSilent = true) {args : List Sexp}
    {lower : Sexp → Lowering String} {s after : State} {text : String}
    (hrender : (form.layout args).render lower s = (.ok text, after)) : text = "" := by
  cases form with
  | nothing =>
    cases hrender
    rfl
  | macroDefinition =>
    have hlayout : Builtin.macroDefinition.layout args = Forms.macroDefinition args := rfl
    rw [hlayout, Forms.macroDefinition] at hrender
    cases hdefined : Forms.macroOf args with
    | error problem =>
      rw [hdefined] at hrender
      cases hrender
    | ok m =>
      rw [hdefined] at hrender
      cases hrender
      rfl
  | _ => cases h

end Builtin

/-! ## Expressions -/

namespace Sexp

/-- The expression leaves no text, unless a macro has its name: a `nop` form, a macro definition or a symbol
    without a name. -/
def isSilent : Sexp → Bool
  | .symbol name => name.isEmpty
  | .group .round (.symbol name :: _) => (Builtin.ofName? name).any Builtin.isSilent
  | _ => false

/-- The first character of a symbol or a regular expression. -/
def wordHead? : Sexp → Option Char
  | .symbol name => name.toList.head?
  | .regex _ _ => some '/'
  | _ => none

/-- The text of an expression begins as the expression does: it is empty if the expression is silent, and it
    begins with a slash or a star if the expression is a word that does. -/
structure Begins (e : Sexp) (text : String) : Prop where
  silent : text = "" ↔ e.isSilent = true
  head : ∀ c, c = '/' ∨ c = '*' → (text.toList.head? = some c ↔ e.wordHead? = some c)

theorem begins_of_head {e : Sexp} {text : String} {c : Char} (hc : text.toList.head? = some c)
    (hslash : c ≠ '/') (hstar : c ≠ '*') (hsilent : e.isSilent = false) (hword : e.wordHead? = none) :
    e.Begins text := by
  constructor
  · rw [hsilent]
    constructor
    · rintro rfl
      cases hc
    · intro h
      cases h
  · intro d hd
    rw [hc, hword]
    constructor
    · rintro ⟨rfl⟩
      exact absurd hd (by simp [hslash, hstar])
    · intro h
      cases h

theorem begins_of_opening {e : Sexp} {text : String}
    (h : ∃ c, text.toList.head? = some c ∧ isOpening c = true) (hsilent : e.isSilent = false)
    (hword : e.wordHead? = none) : e.Begins text := by
  obtain ⟨c, hc, hopening⟩ := h
  refine begins_of_head hc ?_ ?_ hsilent hword
  · exact ne_of_class hopening rfl
  · exact ne_of_class hopening rfl

/-- A form with a name at its head. -/
theorem begins_form {name : String} {args : List Sexp} {lower : Sexp → Lowering String} {s after : State}
    {text : String}
    (h : (Sexp.group .round (.symbol name :: args)).layout.render lower s = (.ok text, after)) :
    (Sexp.group .round (.symbol name :: args)).Begins text := by
  cases hform : Builtin.ofName? name with
  | none =>
    simp only [layout, hform] at h
    have hsilent : (Sexp.group .round (.symbol name :: args)).isSilent = false := by
      simp [isSilent, hform]
    exact begins_of_opening (Layout.head_of_opens rfl h) hsilent rfl
  | some form =>
    simp only [layout, hform] at h
    have hsilent : (Sexp.group .round (.symbol name :: args)).isSilent = form.isSilent := by
      simp [isSilent, hform]
    cases hkind : form.isSilent with
    | false =>
      rw [hkind] at hsilent
      exact begins_of_opening (Layout.head_of_opens (Builtin.opens_layout hkind args) h) hsilent rfl
    | true =>
      rw [hkind] at hsilent
      cases Builtin.eq_empty_of_silent hkind h
      exact ⟨by simp [hsilent], fun c _ => by simp [wordHead?]⟩

/-- **An expression that calls no macro begins as it is written.** -/
theorem begins_of_render {e : Sexp} {lower : Sexp → Lowering String} {s after : State} {text : String}
    (h : e.layout.render lower s = (.ok text, after)) : e.Begins text := by
  cases e with
  | number x =>
    cases h
    obtain ⟨hne, hchars⟩ := x.text_chars
    obtain ⟨c, cs, hcs⟩ := List.exists_cons_of_ne_nil hne
    have hc : Number.isSpelling c = true := hchars c (hcs ▸ List.mem_cons_self)
    have hhead : x.text.toList.head? = some c := by rw [hcs, List.head?_cons]
    exact begins_of_head hhead (ne_of_class hc rfl) (ne_of_class hc rfl) rfl rfl
  | symbol name =>
    cases h
    exact ⟨by simp [isSilent, Sexp.text], fun c _ => by simp [wordHead?, Sexp.text]⟩
  | string content =>
    have hopens : (Layout.text (Literal.quote content)).opens = true := Layout.opens_quote content
    exact begins_of_opening (Layout.head_of_opens hopens h) rfl rfl
  | regex pattern flags =>
    cases h
    exact ⟨by simp [isSilent, Sexp.text], fun c _ => by simp [wordHead?, Sexp.text]⟩
  | group b items =>
    cases b with
    | square =>
      have hopens : (Builtin.arrayOf.layout items).opens = true := Builtin.opens_layout rfl items
      exact begins_of_opening (Layout.head_of_opens hopens h) rfl rfl
    | curly =>
      have hopens : (Builtin.objectOf.layout items).opens = true := Builtin.opens_layout rfl items
      exact begins_of_opening (Layout.head_of_opens hopens h) rfl rfl
    | round =>
      cases items with
      | nil => cases h
      | cons head args =>
        cases head with
        | symbol name => exact begins_form h
        | group b items =>
          cases b with
          | round => exact begins_of_opening (Layout.head_of_opens rfl h) rfl rfl
          | square => cases h
          | curly => cases h
        | number x => cases h
        | string content => cases h
        | regex pattern flags => cases h

/-- **A lowered text begins as what the expression settles to.** -/
theorem begins_of_lowered {e : Sexp} {s after : State} {text : String}
    (h : e.lowered s = (.ok text, after)) :
    ∃ settled, Settles s.registry e settled ∧ settled.Begins text := by
  obtain ⟨settled, _, _, _, hsettles, hrender⟩ := settles_of_lower h
  exact ⟨settled, hsettles, begins_of_render hrender⟩

end Sexp

end FormScript
