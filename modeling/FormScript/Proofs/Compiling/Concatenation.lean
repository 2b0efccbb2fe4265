import FormScript.Proofs.Compiling.Items
import FormScript.Proofs.Reading.Concatenation

/-!
# Compiling texts behind each other

A session keeps its macros and nothing else when it turns to another source. So compiling two texts one
after the other in one session is compiling them as one text with a line feed between them: the lowered
texts follow each other, and a failure in the second text is the same failure, further on.
-/

namespace FormScript

/-- The failure of the same text, `k` characters and `l` lines further on. -/
def CompileError.shift (k l : Nat) (e : CompileError) : CompileError :=
  ⟨e.position.shift k l, e.cause⟩

namespace Session

/-- Expressions that stand further on are lowered alike. -/
theorem lowerItems_shift (k l : Nat) (items : List Located) (state : Lowering.State) (out : String) :
    lowerItems state out (items.map (Located.shift k l))
      = ((lowerItems state out items).1.mapError (CompileError.shift k l),
        (lowerItems state out items).2) := by
  induction items generalizing state out with
  | nil => rfl
  | cons item items ih =>
    simp only [List.map_cons, lowerItems, Located.shift]
    cases item.expression.lowered state with
    | mk outcome state' =>
      cases outcome with
      | error fault => rfl
      | ok text => exact ih state' _

/-- Lowering fails only by refusing an expression. -/
theorem refused_of_lowerItems {items : List Located} {state : Lowering.State} {out : String}
    {e : CompileError} (h : (lowerItems state out items).1 = .error e) :
    ∃ fault, e.cause = .refused fault := by
  induction items generalizing state out with
  | nil => cases h
  | cons item items ih =>
    simp only [lowerItems] at h
    cases hlower : item.expression.lowered state with
    | mk outcome state' =>
      rw [hlower] at h
      cases outcome with
      | error fault =>
        cases h
        exact ⟨fault, rfl⟩
      | ok text => exact ih h

theorem ending_eq_ok {p : Program} {out text : String} (h : ending p out = .ok text) :
    text = out ++ "\n" ∧ p.error = none := by
  cases herror : p.error with
  | none =>
    rw [ending_of_none herror] at h
    cases h
    exact ⟨rfl, rfl⟩
  | some error =>
    rw [ending_of_some herror] at h
    cases h

/-- A text that compiles has been read and lowered to its end. -/
theorem lowerItems_of_compile {text out : String} {s : Session}
    (h : (ofText text).compile = (.ok out, s)) :
    ∃ body, out = body ++ "\n" ∧ (Reader.ofText text).readAll.error = none
      ∧ lowerItems .initial "" (Reader.ofText text).readAll.items = (.ok body, s.state) := by
  obtain ⟨hresult, hstate⟩ := compile_ofText text
  rw [h] at hresult hstate
  cases hlower : lowerItems .initial "" (Reader.ofText text).readAll.items with
  | mk outcome state =>
    rw [hlower] at hresult hstate
    cases outcome with
    | error e => cases hresult
    | ok body =>
      obtain ⟨hout, hnone⟩ := ending_eq_ok hresult.symm
      exact ⟨body, hout, hnone, by rw [hstate]⟩

/-- Lowering a text behind one that has been lowered to `body`, further on. -/
theorem lowerItems_join {before items : List Located} {state state' : Lowering.State} {body : String}
    (h : lowerItems state "" before = (.ok body, state')) (k l : Nat) :
    lowerItems state "" (before ++ items.map (Located.shift k l))
      = (((lowerItems state' "" items).1.mapError (CompileError.shift k l)).map (body ++ ·),
        (lowerItems state' "" items).2) := by
  have hbehind := lowerItems_behind body (items.map (Located.shift k l)) state' ""
  rw [String.append_empty] at hbehind
  rw [lowerItems_append h, hbehind, lowerItems_shift]

end Session

/-- **Compiling is compositional.** When `a` compiles to `A`, compiling `b` in the session that is left
    tells what the two texts compile to with a line feed between them, if `b` does not ask for its line.
    The macros are the same; the lowered texts follow each other, without the line feed that ends the
    first; an expression that is refused is refused for the same fault, and a text that cannot be read
    fails with the same fault under the name of the whole text, in the same column, as many characters
    and lines further on as `a` and the line feed have. -/
theorem compile_concatenation {a b A : String} {first : Session}
    (ha : (Session.ofText a).compile = (.ok A, first)) (hb : ¬ lineMarker.toList <:+: b.toList) :
    ∃ body, A = body ++ "\n"
      ∧ (Session.ofText (a ++ "\n" ++ b)).compile.2.registry
        = (first.setSource (.ofText b.toList)).compile.2.registry
      ∧ (∀ B, (first.setSource (.ofText b.toList)).compile.1 = .ok B →
          (Session.ofText (a ++ "\n" ++ b)).compile.1 = .ok (body ++ B))
      ∧ (∀ p fault, (first.setSource (.ofText b.toList)).compile.1 = .error ⟨p, .refused fault⟩ →
          (Session.ofText (a ++ "\n" ++ b)).compile.1
            = .error ⟨p.shift (a.length + 1) (1 + a.toList.count '\n'), .refused fault⟩)
      ∧ (∀ p error,
          (first.setSource (.ofText b.toList)).compile.1 = .error ⟨p, .unreadable error⟩ →
          ∃ fault, error = .ofFault fault (Reader.textName b)
            ∧ (Session.ofText (a ++ "\n" ++ b)).compile.1
              = .error ⟨p.shift (a.length + 1) (1 + a.toList.count '\n'),
                  .unreadable (.ofFault fault (Reader.textName (a ++ "\n" ++ b)))⟩) := by
  obtain ⟨body, hA, hread, hlower⟩ := Session.lowerItems_of_compile ha
  obtain ⟨hitems, hposition, unread, herrorB, herror⟩ := Reader.readAll_join hread hb
  obtain ⟨hsecond, hsecondState⟩ := first.compile_setSource b
  obtain ⟨hjoint, hjointState⟩ := Session.compile_ofText (a ++ "\n" ++ b)
  rw [hitems, Session.lowerItems_join hlower] at hjoint hjointState
  refine ⟨body, hA, congrArg Lowering.State.registry (hjointState.trans hsecondState.symm), ?_⟩
  cases hrun : (Session.lowerItems first.state "" (Reader.ofText b).readAll.items).1 with
  | error e =>
    -- an expression of `b` is refused, before anything that cannot be read
    rw [hrun] at hsecond hjoint
    obtain ⟨fault, hcause⟩ := Session.refused_of_lowerItems hrun
    refine ⟨?_, ?_, ?_⟩
    · intro B hB
      cases hsecond.symm.trans hB
    · intro p fault' hp
      cases hsecond.symm.trans hp
      exact hjoint
    · intro p error hp
      cases hsecond.symm.trans hp
      cases hcause
  | ok out =>
    rw [hrun] at hsecond hjoint
    cases unread with
    | none =>
      -- all of `b` is read and lowered
      have hdone := hsecond.trans (Session.ending_of_none herrorB out)
      refine ⟨?_, ?_, ?_⟩
      · intro B hB
        cases hdone.symm.trans hB
        rw [← String.append_assoc]
        exact hjoint.trans (Session.ending_of_none herror (body ++ out))
      · intro p fault hp
        cases hdone.symm.trans hp
      · intro p error hp
        cases hdone.symm.trans hp
    | some fault =>
      -- what can be read of `b` is lowered, the rest cannot be read
      have hstuck := hsecond.trans (Session.ending_of_some herrorB out)
      refine ⟨?_, ?_, ?_⟩
      · intro B hB
        cases hstuck.symm.trans hB
      · intro p fault' hp
        cases hstuck.symm.trans hp
      · intro p error hp
        cases hstuck.symm.trans hp
        rw [← hposition]
        exact ⟨fault, rfl, hjoint.trans (Session.ending_of_some herror (body ++ out))⟩

/-- A macro is known to the text behind its definition, in the same session and in the same text. -/
theorem compile_concatenation_macro :
    (Session.ofText ("(macro twice (x) (list (quote do) x x))" ++ "\n" ++ "(twice (f))")).compile.1
      = .ok "((f()),(f()));\n" := by
  have hfirst : (Session.ofText "(macro twice (x) (list (quote do) x x))").compile.1.toOption
      = some "\n" := by decide +kernel
  have hsecond : ((Session.ofText "(macro twice (x) (list (quote do) x x))").compile.2.setSource
      (.ofText "(twice (f))".toList)).compile.1.toOption = some "((f()),(f()));\n" := by
    decide +kernel
  have hline : ¬ lineMarker.toList <:+: "(twice (f))".toList := by
    intro hmarked
    have hunder : '_' ∈ "(twice (f))".toList := hmarked.subset (by decide)
    exact absurd hunder (by decide)
  generalize hrun : (Session.ofText "(macro twice (x) (list (quote do) x x))").compile = run
    at hfirst hsecond
  obtain ⟨outcome, session⟩ := run
  cases outcome with
  | error e => cases hfirst
  | ok text =>
    obtain ⟨body, hbody, _, hok, _⟩ := compile_concatenation hrun hline
    have hnewline : "" ++ "\n" = body ++ "\n" := by
      rw [← hbody, String.empty_append]
      exact (Option.some.inj hfirst).symm
    have hempty : body = "" := ((String.append_left_inj "\n").mp hnewline).symm
    cases hB : (session.setSource (.ofText "(twice (f))".toList)).compile.1 with
    | error e =>
      rw [hB] at hsecond
      cases hsecond
    | ok B =>
      rw [hB] at hsecond
      have hjoint := hok B hB
      rw [hempty, String.empty_append, Option.some.inj hsecond] at hjoint
      exact hjoint

end FormScript
