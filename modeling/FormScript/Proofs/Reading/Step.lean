import FormScript.Reading.Expression

/-!
# One step of the reader

`StepsTo` lists everything a step of the reader can do, one rule for each case, and `readStep` is the
function it describes (`readStep_stepsTo`, `StepsTo.readStep_eq`). Statements about all steps are
proved by cases on the rules. `readWithin` then is a step followed by the run it leads to
(`readWithin_eq`).
-/

namespace FormScript

namespace ReadStep

/-- The same step with another cursor. -/
def moveTo (c : Cursor) : ReadStep Cursor → ReadStep Cursor
  | .done outcome _ => .done outcome c
  | .more frames _ => .more frames c

/-- Whether the step has taken something of an expression. -/
def accepted : ReadStep Cursor → Bool
  | .done (.ok (some _)) _ => true
  | .done _ _ => false
  | .more _ _ => true

end ReadStep

namespace Cursor

open ReadStep

/-- Everything a step inside the groups `frames` can do at a cursor that stands on no gap. -/
inductive StepsTo : List Frame → Cursor → ReadStep Cursor → Prop where
  | atEnd {frames : List Frame} {p : Position} :
      StepsTo frames ⟨[], p⟩ (atEnd frames ⟨[], p⟩)
  | opening {frames : List Frame} {first : Char} {tail : List Char} {p : Position} {b : Bracket} :
      Bracket.ofOpening? first = some b → frames.length < maxNesting →
      StepsTo frames ⟨first :: tail, p⟩ (.more (⟨b, []⟩ :: frames) ⟨tail, p.step first⟩)
  | tooDeep {frames : List Frame} {first : Char} {tail : List Char} {p : Position} {b : Bracket} :
      Bracket.ofOpening? first = some b → maxNesting ≤ frames.length →
      StepsTo frames ⟨first :: tail, p⟩ (.done (.error .nestedTooDeeply) ⟨first :: tail, p⟩)
  | closing {f : Frame} {outer : List Frame} {first : Char} {tail : List Char} {p : Position} :
      Bracket.ofOpening? first = none → Bracket.ofClosing? first = some f.bracket →
      StepsTo (f :: outer) ⟨first :: tail, p⟩ (deliver f.close outer ⟨tail, p.step first⟩)
  | unexpected {frames : List Frame} {first : Char} {tail : List Char} {p : Position} {b : Bracket} :
      Bracket.ofOpening? first = none → Bracket.ofClosing? first = some b →
      (∀ f, frames.head? = some f → f.bracket ≠ b) →
      StepsTo frames ⟨first :: tail, p⟩ (.done (.error (.unexpectedClosing b)) ⟨first :: tail, p⟩)
  | atom {frames : List Frame} {first : Char} {tail : List Char} {p : Position} {e : Sexp}
      {stop : Cursor} :
      Bracket.ofOpening? first = none → Bracket.ofClosing? first = none →
      readAtom first ⟨tail, p.step first⟩ = (.ok e, stop) →
      StepsTo frames ⟨first :: tail, p⟩ (deliver e frames stop)
  | cutOff {frames : List Frame} {first : Char} {tail : List Char} {p : Position}
      {fault : ReadFault} {stop : Cursor} :
      Bracket.ofOpening? first = none → Bracket.ofClosing? first = none →
      readAtom first ⟨tail, p.step first⟩ = (.error fault, stop) →
      StepsTo frames ⟨first :: tail, p⟩ (.done (.error fault) stop)

/-- Every step follows one of the rules. -/
theorem readStep_stepsTo (frames : List Frame) (c : Cursor) : StepsTo frames c (readStep frames c) := by
  obtain ⟨rest, p⟩ := c
  cases rest with
  | nil => exact StepsTo.atEnd
  | cons first tail =>
    have hnext : next ⟨first :: tail, p⟩ = ⟨tail, p.step first⟩ := rfl
    cases hopen : Bracket.ofOpening? first with
    | some b =>
      simp only [readStep, hopen, atOpening, hnext]
      split
      · rename_i hdepth
        exact StepsTo.opening hopen hdepth
      · rename_i hdepth
        exact StepsTo.tooDeep hopen (Nat.le_of_not_lt hdepth)
    | none =>
      cases hclose : Bracket.ofClosing? first with
      | some b =>
        simp only [readStep, hopen, hclose, atClosing, hnext]
        cases frames with
        | nil => exact StepsTo.unexpected hopen hclose (by simp)
        | cons f outer =>
          by_cases hb : f.bracket = b
          · simp only [if_pos hb]
            exact StepsTo.closing hopen (hb ▸ hclose)
          · simp only [if_neg hb]
            exact StepsTo.unexpected hopen hclose (by simp [hb])
      | none =>
        cases hatom : readAtom first ⟨tail, p.step first⟩ with
        | mk outcome stop =>
          simp only [readStep, hopen, hclose, hnext, hatom]
          cases outcome with
          | error fault => exact StepsTo.cutOff hopen hclose hatom
          | ok e => exact StepsTo.atom hopen hclose hatom

/-- The rules leave no choice. -/
theorem StepsTo.readStep_eq {frames : List Frame} {c : Cursor} {s : ReadStep Cursor}
    (h : StepsTo frames c s) : readStep frames c = s := by
  cases h with
  | atEnd => rfl
  | opening hopen hdepth => simp [readStep, hopen, atOpening, hdepth, next, past]
  | tooDeep hopen hdepth => simp [readStep, hopen, atOpening, Nat.not_lt.mpr hdepth]
  | closing hopen hclose => simp [readStep, hopen, hclose, atClosing, next, past]
  | @unexpected frames first tail p b hopen hclose hb =>
    cases frames with
    | nil => simp [readStep, hopen, hclose, atClosing]
    | cons f outer =>
      have hne : f.bracket ≠ b := hb f rfl
      simp [readStep, hopen, hclose, atClosing, hne]
  | atom hopen hclose hatom =>
    simp only [readStep, hopen, hclose]
    rw [show next ⟨_ :: _, _⟩ = ⟨_, Position.step _ _⟩ from rfl, hatom]
  | cutOff hopen hclose hatom =>
    simp only [readStep, hopen, hclose]
    rw [show next ⟨_ :: _, _⟩ = ⟨_, Position.step _ _⟩ from rfl, hatom]

/-! ## Delivering an expression -/

@[simp] theorem deliver_moveTo (e : Sexp) (frames : List Frame) (c d : Cursor) :
    (deliver e frames c).moveTo d = deliver e frames d := by
  cases frames with
  | nil => rfl
  | cons f outer => rfl

/-! ## Progress -/

/-- Moving over at least one character splits it off the text. -/
theorem Reaches.split {c d : Cursor} (h : c.Reaches d) (hlt : d.rest.length < c.rest.length) :
    ∃ taken, taken ≠ [] ∧ c.rest = taken ++ d.rest ∧ d.position = c.position.advance taken := by
  obtain ⟨taken, hrest, hpos⟩ := h
  refine ⟨taken, ?_, hrest, hpos⟩
  intro hnil
  rw [hrest, hnil, List.nil_append] at hlt
  exact Nat.lt_irrefl _ hlt

/-- An accepted step moves over at least one character. -/
theorem readStep_accepted_split {frames : List Frame} {c : Cursor}
    (h : (readStep frames c).accepted = true) :
    ∃ taken, taken ≠ [] ∧ c.rest = taken ++ (readStep frames c).cursor.rest
      ∧ (readStep frames c).cursor.position = c.position.advance taken := by
  obtain ⟨hreach, hlt | ⟨fault, hdone⟩ | hdone⟩ := readStep_cursor frames c
  · exact hreach.split hlt
  · rw [hdone] at h
    simp [ReadStep.accepted] at h
  · rw [hdone] at h
    simp [ReadStep.accepted] at h

end Cursor

end FormScript
