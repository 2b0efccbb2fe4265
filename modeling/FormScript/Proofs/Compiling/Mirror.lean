import FormScript.Proofs.Compiling.Items
import FormScript.Proofs.Lowering.Correspondence
import FormScript.Proofs.Macro.Expansion
import FormScript.Proofs.Reading.Mirror

/-!
# Compiling what was printed

Expressions that were read can be printed and read again, and what is read then may differ from them: the
strings have other contents, and zero has lost its sign. Compiling does not see the difference
(`mirror_compiles_alike`). What was read again looks like what was read first (`reflects_lookalike`), as
long as it has no number beyond all finite ones, which would come back as a symbol. Expressions that look
alike are lowered alike, as long as no macro is defined, whose expansion might compare strings.
-/

namespace FormScript

/-! ## Expressions and their mirrors -/

namespace Number

/-- The sign of a place other than zero. -/
theorem sign_eq_of_place {k : Int} (hk : 0 < k) {negative negative' : Bool}
    (h : (if negative then -k else k) = if negative' then -k else k) : negative = negative' := by
  cases negative with
  | true =>
    cases negative' with
    | true => rfl
    | false =>
      simp only [if_true, Bool.false_eq_true, if_false] at h
      omega
  | false =>
    cases negative' with
    | true =>
      simp only [if_true, Bool.false_eq_true, if_false] at h
      omega
    | false => rfl

/-- Equal numbers are written in the same way; of the two zeros neither has a sign. -/
theorem text_eq_of_equals {x y : Number} (h : x.equals y = true) : x.text = y.text := by
  cases x with
  | nan => cases h
  | infinite negative =>
    cases y with
    | nan => cases h
    | infinite negative' =>
      rw [sign_eq_of_place (by decide) (of_decide_eq_true h)]
    | finite negative' rank' =>
      -- no place of a finite number is as far out
      have hplace := of_decide_eq_true h
      have hrank' := rank'.isLt
      split_ifs at hplace <;> omega
  | finite negative rank =>
    cases y with
    | nan => cases h
    | infinite negative' =>
      have hplace := of_decide_eq_true h
      have hrank := rank.isLt
      split_ifs at hplace <;> omega
    | finite negative' rank' =>
      have hplace := of_decide_eq_true h
      have hmagnitude : rank = rank' := Fin.ext (by split_ifs at hplace <;> omega)
      subst hmagnitude
      by_cases hzero : rank.val = 0
      · rw [text, text, if_pos hzero, if_pos hzero]
      · rw [sign_eq_of_place (by omega) hplace]

end Number

namespace Sexp

def isInfinite : Sexp → Bool
  | .number (.infinite _) => true
  | _ => false

theorem mirrored_number {x : Number} (h : (number x).isInfinite = false) :
    (number x).mirrored = .number x := by
  cases x with
  | infinite negative => cases h
  | nan => rfl
  | finite negative rank => rfl

/-- The expression `v` is the mirror of `e`, in which nothing names the definition of macros and no
    number is beyond all finite ones. -/
structure Reflects (v e : Sexp) : Prop where
  same : v.equals e.mirrored = true
  no_definition : e.Every fun a => a.symbol? ≠ some "macro"
  finite : e.Every fun a => a.isInfinite = false

theorem forall₂_reflects {vs es : List Sexp} (hsame : equalsAll vs (mirroredAll es) = true)
    (hnames : ∀ e ∈ es, e.Every fun a => a.symbol? ≠ some "macro")
    (hfinite : ∀ e ∈ es, e.Every fun a => a.isInfinite = false) : List.Forall₂ Reflects vs es := by
  induction es generalizing vs with
  | nil =>
    cases vs with
    | nil => exact .nil
    | cons v vs => cases hsame
  | cons e es ih =>
    cases vs with
    | nil => cases hsame
    | cons v vs =>
      rw [mirroredAll, equalsAll, Bool.and_eq_true] at hsame
      obtain ⟨hname, hnames⟩ := List.forall_mem_cons.mp hnames
      obtain ⟨hfirst, hfinite⟩ := List.forall_mem_cons.mp hfinite
      exact .cons ⟨hsame.1, hname, hfirst⟩ (ih hsame.2 hnames hfinite)

theorem Reflects.shape {v e : Sexp} (h : Reflects v e) : SameShape Reflects v e := by
  obtain ⟨hsame, hnames, hfinite⟩ := h
  cases e with
  | number y =>
    rw [mirrored_number (every_number.mp hfinite)] at hsame
    cases v with
    | number x => exact .number x y
    | _ => cases hsame
  | symbol name =>
    cases v with
    | symbol name' =>
      rw [mirrored, equals, decide_eq_true_eq] at hsame
      rw [hsame]
      exact .symbol name
    | _ => cases hsame
  | string content =>
    cases v with
    | string content' => exact .string content' content
    | _ => cases hsame
  | regex pattern flags =>
    cases v with
    | regex pattern' flags' => exact .regex pattern' flags' pattern flags
    | _ => cases hsame
  | group b es =>
    cases v with
    | group c vs =>
      rw [mirrored, equals, Bool.and_eq_true, decide_eq_true_eq] at hsame
      rw [hsame.1]
      exact .group b (forall₂_reflects hsame.2 (every_group.mp hnames) (every_group.mp hfinite))
    | _ => cases hsame

mutual

/-- An expression is printed like its mirror. -/
theorem Reflects.text_eq (v e : Sexp) (h : Reflects v e) : v.text = e.text := by
  have hsame := h.same
  cases e with
  | number y =>
    rw [mirrored_number (every_number.mp h.finite)] at hsame
    cases h.shape with
    | number x =>
      rw [equals] at hsame
      rw [text, text, Number.text_eq_of_equals hsame]
  | symbol name =>
    cases h.shape with
    | symbol => rfl
  | string content =>
    cases h.shape with
    | string content' =>
      -- the content has become the body of its literal, and that is its own body
      rw [mirrored, equals, decide_eq_true_eq] at hsame
      rw [text, text, hsame, Literal.quote, Literal.quote, String.toList_ofList,
        (Protected.body content.toList).body_eq]
  | regex pattern flags =>
    cases h.shape with
    | regex pattern' flags' =>
      rw [mirrored, equals, Bool.and_eq_true, decide_eq_true_eq, decide_eq_true_eq] at hsame
      rw [hsame.1, hsame.2]
  | group b es =>
    cases h.shape with
    | group _ hitems => rw [text, text, texts_eq_of_reflects _ es hitems]

theorem texts_eq_of_reflects (vs es : List Sexp) (h : List.Forall₂ Reflects vs es) :
    texts vs = texts es := by
  cases es with
  | nil =>
    cases h
    rfl
  | cons e es =>
    cases h with
    | cons hfirst hrest =>
      rw [texts, texts, Reflects.text_eq _ e hfirst, texts_eq_of_reflects _ es hrest]

end

end Sexp

/-- **A mirror looks like what it mirrors.** -/
theorem reflects_lookalike : Lookalike Sexp.Reflects where
  text_eq := Sexp.Reflects.text_eq _ _
  shape := Sexp.Reflects.shape
  no_definition := by
    intro e h
    cases h.shape with
    | symbol => exact Sexp.every_symbol.mp h.no_definition rfl

/-! ## Compiling -/

namespace Session

/-- Expressions that look alike are lowered alike, one after the other, as long as no macro is defined. -/
theorem lowerItems_lookalike {r : Sexp → Sexp → Prop} (hr : Lookalike r) {items items' : List Located}
    (h : List.Forall₂ r (items.map (·.expression)) (items'.map (·.expression)))
    {state : Lowering.State} (hbare : state.registry = .empty) (out : String) :
    (lowerItems state out items).1.mapError CompileError.cause
      = (lowerItems state out items').1.mapError CompileError.cause := by
  rw [List.forall₂_map_left_iff, List.forall₂_map_right_iff] at h
  induction h generalizing state out with
  | nil => rfl
  | @cons item item' items items' hitem _ ih =>
    -- nothing has been defined after the first one either
    obtain ⟨hrun, hafter⟩ := hr.lowered hitem state hbare
    simp only [lowerItems, ← hrun]
    cases hlower : item.expression.lowered state with
    | mk outcome state' =>
      rw [hlower] at hafter
      cases outcome with
      | error fault => rfl
      | ok text => exact ih hafter _

end Session

/-- **What was printed compiles like what was read.** Of a text that is read to its end, the expressions are
    printed one on a line. If nothing in them names the definition of macros and no number is beyond all
    finite ones, the lines compile to the same text as the text itself, or are refused for the same cause. -/
theorem mirror_compiles_alike {text : String}
    (hread : (Reader.ofText text).readAll.error = none)
    (hnames : ∀ e ∈ (Reader.ofText text).readAll.expressions, e.Every fun a => a.symbol? ≠ some "macro")
    (hfinite : ∀ e ∈ (Reader.ofText text).readAll.expressions, e.Every fun a => a.isInfinite = false) :
    let mirror := Command.lines ((Reader.ofText text).readAll.expressions.map Sexp.text)
    (Session.ofText mirror).compile.1.mapError CompileError.cause
      = (Session.ofText text).compile.1.mapError CompileError.cause := by
  intro mirror
  obtain ⟨ts, hdepths, hmirrors⟩ :=
    exists_forest (Nat.zero_le maxNesting) (reads_mirrored.readAll text)
  have hrenders : Tree.Renders ts mirror.toList := by
    refine ⟨[], _, .nil, writtenAll_lines hmirrors, ?_⟩
    rw [Sexp.texts_eq_map]
    rfl
  obtain ⟨hvalues, hagain⟩ := Tree.readAll_renders (by omega) hrenders
  have hreflects : List.Forall₂ Sexp.Reflects (Reader.ofText mirror).readAll.expressions
      (Reader.ofText text).readAll.expressions := by
    rw [hvalues]
    exact Sexp.forall₂_reflects (equalsAll_of_mirrors hmirrors) hnames hfinite
  have hbare : Lowering.State.initial.registry = .empty := rfl
  have hlowered := Session.lowerItems_lookalike reflects_lookalike hreflects hbare ""
  have hending : Session.ending (Reader.ofText mirror).readAll
      = Session.ending (Reader.ofText text).readAll := by
    funext out
    rw [Session.ending_of_none hagain, Session.ending_of_none hread]
  rw [(Session.compile_ofText mirror).1, (Session.compile_ofText text).1, hending]
  exact Session.bind_congr_cause hlowered _

/-- Strings, numbers and labels in spellings that printing changes, some of them kept as text. -/
theorem mirror_compiles_alike_spellings :
    let text := "(. o 'a\"b' (m -0 1e3) [.50])\n(_str 'c\"' 1e-2) ; over\n(while up: '' 7. (quote '\\''))"
    (Reader.ofText text).readAll.error = none
      ∧ (∀ e ∈ (Reader.ofText text).readAll.expressions, e.Every fun a => a.symbol? ≠ some "macro")
      ∧ (∀ e ∈ (Reader.ofText text).readAll.expressions, e.Every fun a => a.isInfinite = false)
      ∧ (Session.ofText (Command.lines ((Reader.ofText text).readAll.expressions.map Sexp.text))
          ).compile.1.mapError CompileError.cause
        = (Session.ofText text).compile.1.mapError CompileError.cause := by
  intro text
  have hread : (Reader.ofText text).readAll.error = none :=
    Option.isNone_iff_eq_none.mp (by decide +kernel)
  have hnames : ∀ e ∈ (Reader.ofText text).readAll.expressions,
      e.Every fun a => a.symbol? ≠ some "macro" := by decide +kernel
  have hfinite : ∀ e ∈ (Reader.ofText text).readAll.expressions,
      e.Every fun a => a.isInfinite = false := by decide +kernel
  exact ⟨hread, hnames, hfinite, mirror_compiles_alike hread hnames hfinite⟩

/-- A number beyond all finite ones is an index, and its mirror is a name. -/
example :
    (Session.ofText "(. o 1e999)").compile.1.toOption = some "(o[Infinity]);\n"
      ∧ (Session.ofText (Command.lines ((Reader.ofText "(. o 1e999)").readAll.expressions.map Sexp.text))
          ).compile.1.toOption = some "(o.Infinity);\n" := by
  decide +kernel

end FormScript
