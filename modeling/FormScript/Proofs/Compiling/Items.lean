import FormScript.Proofs.Lowering.Promises
import FormScript.Proofs.Reading.Scan
import FormScript.Session

/-!
# Compiling what has been read

A session reads and lowers by turns. Reading does not look at the macros and lowering does not look at
the text, so the two can be taken apart: a session compiles its source as if it first read all of it and
then lowered the expressions one after the other, up to the first that cannot be lowered
(`compileFrom_eq`). Only the places reported depend on where the expressions stand.
-/

namespace FormScript

namespace Session

/-- Lowers expressions one after the other, behind the text `out`. -/
def lowerItems (state : Lowering.State) (out : String) :
    List Located → Except CompileError String × Lowering.State
  | [] => (.ok out, state)
  | item :: items =>
    match item.expression.lowered state with
    | (.error fault, state) => (.error ⟨item.start, .refused fault⟩, state)
    | (.ok text, state) => lowerItems state (out ++ statement text) items

/-- How compiling ends, after the text `out`, when reading has ended as in `p`. -/
def ending (p : Program) (out : String) : Except CompileError String :=
  match p.error with
  | none => .ok (out ++ "\n")
  | some error => .error ⟨p.reader.position, .unreadable error⟩

theorem ending_of_none {p : Program} (h : p.error = none) (out : String) :
    ending p out = .ok (out ++ "\n") := by
  unfold ending
  rw [h]

theorem ending_of_some {p : Program} {error : ReadError} (h : p.error = some error) (out : String) :
    ending p out = .error ⟨p.reader.position, .unreadable error⟩ := by
  unfold ending
  rw [h]

/-- **Compiling is lowering what reading gives.** -/
theorem compileFrom_eq (reader : Reader) (state : Lowering.State) (formStart : Position)
    (out : String) :
    (compileFrom reader state formStart out).1
        = (lowerItems state out reader.readAll.items).1.bind (ending reader.readAll)
      ∧ (compileFrom reader state formStart out).2.state
        = (lowerItems state out reader.readAll.items).2 := by
  fun_induction compileFrom reader state formStart out with
  | case1 reader state formStart out error after hread =>
    rw [Reader.readAll_of_error hread]
    exact ⟨rfl, rfl⟩
  | case2 reader state formStart out after hread =>
    rw [Reader.readAll_of_none hread]
    exact ⟨rfl, rfl⟩
  | case3 reader state formStart out e after hread fault state' hlower =>
    rw [Reader.readAll_of_some hread]
    simp only [lowerItems, hlower, and_true]
    rfl
  | case4 reader state formStart out e after hread text state' hlower ih =>
    rw [Reader.readAll_of_some hread]
    simp only [lowerItems, hlower]
    exact ih

/-- Compiling fails in lowering what is read, or where reading does. -/
theorem compileFrom_error {reader : Reader} {state : Lowering.State} {formStart : Position}
    {out : String} {e : CompileError} (h : (compileFrom reader state formStart out).1 = .error e) :
    (lowerItems state out reader.readAll.items).1 = .error e
      ∨ ∃ error, reader.readAll.error = some error
        ∧ e = ⟨reader.readAll.reader.position, .unreadable error⟩ := by
  rw [(compileFrom_eq reader state formStart out).1] at h
  cases hlower : (lowerItems state out reader.readAll.items).1 with
  | error e' =>
    rw [hlower] at h
    exact Or.inl h
  | ok text =>
    rw [hlower] at h
    cases herror : reader.readAll.error with
    | none => cases (ending_of_none herror text).symm.trans h
    | some error =>
      cases (ending_of_some herror text).symm.trans h
      exact Or.inr ⟨error, rfl, rfl⟩

/-- Compiling a text in a session that has not met any other. -/
theorem compile_ofText (text : String) :
    (ofText text).compile.1
        = (lowerItems .initial "" (Reader.ofText text).readAll.items).1.bind
          (ending (Reader.ofText text).readAll)
      ∧ (ofText text).compile.2.state
        = (lowerItems .initial "" (Reader.ofText text).readAll.items).2 :=
  compileFrom_eq (Reader.ofText text) .initial .start ""

/-- Compiling a text that a session turns to: of what came before, the state of lowering is left. -/
theorem compile_setSource (s : Session) (text : String) :
    (s.setSource (.ofText text.toList)).compile.1
        = (lowerItems s.state "" (Reader.ofText text).readAll.items).1.bind
          (ending (Reader.ofText text).readAll)
      ∧ (s.setSource (.ofText text.toList)).compile.2.state
        = (lowerItems s.state "" (Reader.ofText text).readAll.items).2 :=
  compileFrom_eq (Reader.ofText text) s.state .start ""

/-- The lowered text and the macros depend on the expressions, not on their places. -/
theorem lowerItems_congr {items items' : List Located}
    (h : items.map (·.expression) = items'.map (·.expression)) (state : Lowering.State) (out : String) :
    (lowerItems state out items).1.mapError CompileError.cause
        = (lowerItems state out items').1.mapError CompileError.cause
      ∧ (lowerItems state out items).2 = (lowerItems state out items').2 := by
  induction items generalizing items' state out with
  | nil =>
    have hnil : items' = [] := List.map_eq_nil_iff.mp h.symm
    subst hnil
    exact ⟨rfl, rfl⟩
  | cons item items ih =>
    obtain ⟨item', rest, rfl, hitem, hrest⟩ := List.map_eq_cons_iff.mp h.symm
    simp only [lowerItems, hitem]
    cases item.expression.lowered state with
    | mk outcome state' =>
      cases outcome with
      | error fault => exact ⟨rfl, rfl⟩
      | ok text => exact ih hrest.symm state' _

/-- Outcomes that are the same up to places go on to such outcomes. -/
theorem bind_congr_cause {x y : Except CompileError String}
    (h : x.mapError CompileError.cause = y.mapError CompileError.cause)
    (f : String → Except CompileError String) :
    (x.bind f).mapError CompileError.cause = (y.bind f).mapError CompileError.cause := by
  cases x with
  | error e =>
    cases y with
    | error e' => exact h
    | ok text' => cases h
  | ok text =>
    cases y with
    | error e' => cases h
    | ok text' =>
      cases h
      rfl

/-- **Sources with the same expressions compile alike**, if both can be read to their end. -/
theorem compileFrom_congr {reader reader' : Reader}
    (hsame : reader.readAll.expressions = reader'.readAll.expressions)
    (herror : reader.readAll.error = none) (herror' : reader'.readAll.error = none)
    (state : Lowering.State) (formStart : Position) (out : String) :
    (compileFrom reader state formStart out).1.mapError CompileError.cause
        = (compileFrom reader' state formStart out).1.mapError CompileError.cause
      ∧ (compileFrom reader state formStart out).2.state
        = (compileFrom reader' state formStart out).2.state := by
  obtain ⟨hresult, hstate⟩ := compileFrom_eq reader state formStart out
  obtain ⟨hresult', hstate'⟩ := compileFrom_eq reader' state formStart out
  obtain ⟨hlower, hmacros⟩ := lowerItems_congr hsame state out
  have hending : ending reader.readAll = ending reader'.readAll := by
    funext out
    rw [ending_of_none herror, ending_of_none herror']
  rw [hresult, hresult', hstate, hstate', hmacros, hending]
  exact ⟨bind_congr_cause hlower _, rfl⟩

/-- Lowering a list behind another. -/
theorem lowerItems_append {items : List Located} {state state' : Lowering.State} {out out' : String}
    (h : lowerItems state out items = (.ok out', state')) (more : List Located) :
    lowerItems state out (items ++ more) = lowerItems state' out' more := by
  induction items generalizing state out with
  | nil =>
    cases h
    rfl
  | cons item items ih =>
    simp only [List.cons_append, lowerItems] at h ⊢
    cases hlower : item.expression.lowered state with
    | mk outcome state'' =>
      rw [hlower] at h
      cases outcome with
      | error fault => cases h
      | ok text => exact ih h

/-- What is lowered does not depend on the text it stands behind. -/
theorem lowerItems_behind (before : String) (items : List Located) (state : Lowering.State)
    (out : String) :
    lowerItems state (before ++ out) items
      = ((lowerItems state out items).1.map (before ++ ·), (lowerItems state out items).2) := by
  induction items generalizing state out with
  | nil => rfl
  | cons item items ih =>
    simp only [lowerItems]
    cases item.expression.lowered state with
    | mk outcome state' =>
      cases outcome with
      | error fault => rfl
      | ok text =>
        simp only
        rw [String.append_assoc]
        exact ih state' _

/-- What every statement keeps of the text before it, if a promise about its own text is kept, holds of the
    whole text. -/
theorem lowerItems_kept {c : Promise} (hc : c.Kept) {Inv : String → Prop}
    (hstep : ∀ e text out, c.gives e text → Inv out → Inv (out ++ statement text)) {items : List Located}
    (hitems : ∀ item ∈ items, c.admits item.expression) {state after : Lowering.State}
    (hstate : c.Knows state.registry) {out body : String} (hout : Inv out)
    (h : lowerItems state out items = (.ok body, after)) : Inv body := by
  induction items generalizing state out with
  | nil =>
    cases h
    exact hout
  | cons item items ih =>
    obtain ⟨hitem, hrest⟩ := List.forall_mem_cons.mp hitems
    simp only [lowerItems] at h
    cases hlower : item.expression.lowered state with
    | mk outcome between =>
      rw [hlower] at h
      cases outcome with
      | error fault => cases h
      | ok text =>
        obtain ⟨htext, hknown⟩ := hc.lowered hitem state text between hstate hlower
        exact ih hrest hknown (hstep _ _ _ htext hout) h

end Session

end FormScript
