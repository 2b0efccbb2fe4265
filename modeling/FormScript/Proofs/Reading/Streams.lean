import Mathlib.Data.List.Forall2
import FormScript.Reading.Reader

/-!
# Texts and streams

A source may hold its text whole or pull it character by character. A reader cannot tell the two apart:
over the same text, any steps of reading and going back give the same expressions and the same failures
at the same places, and only the name under which a failure is reported differs (`trace_agrees`).

The argument is a simulation. Two sources agree when they stand at the same place of the same text. A reader
looks at the character under the cursor and moves over it, time and again, and has then moved to where
reading from the cursor stops (`Reader.read_eq_moveTo`); every move keeps the agreement, however much each
source has pulled. What a stream has pulled is told by how far it has ever come: one character more than
that, so long as there is one (`Drawn`). Going back forgets the place and not the characters, so this is a
statement about the whole history.
-/

namespace FormScript

/-! ## Sources at the same place -/

namespace Source

/-- The sources stand at the same place of the same text, whatever each of them has pulled. -/
structure Agrees (s t : Source) : Prop where
  behind : s.behind = t.behind
  rest : s.rest = t.rest
  position : s.position = t.position

theorem advance_behind (s : Source) :
    s.advance.behind = match s.rest with
      | [] => s.behind
      | c :: _ => c :: s.behind := by
  unfold advance
  rw [rest_eq]
  split
  · rename_i hahead
    simp [hahead, s.at_hand hahead]
  all_goals simp_all

theorem reset_rest (s : Source) : s.reset.rest = s.behind.reverse ++ s.rest := by
  rw [rest_eq, rest_eq, ← List.append_assoc]
  rfl

namespace Agrees

variable {s t : Source} (h : s.Agrees t)
include h

theorem cursor : s.cursor = t.cursor := by
  unfold Source.cursor
  rw [h.rest, h.position]

theorem advance : s.advance.Agrees t.advance := by
  have hcursor : s.advance.cursor = t.advance.cursor := by
    rw [advance_cursor, advance_cursor, h.cursor]
  refine ⟨?_, congrArg Cursor.rest hcursor, congrArg Cursor.position hcursor⟩
  rw [advance_behind, advance_behind, h.rest, h.behind]

theorem reset : s.reset.Agrees t.reset := by
  refine ⟨rfl, ?_, rfl⟩
  rw [reset_rest, reset_rest, h.behind, h.rest]

end Agrees

theorem Agrees.advanceBy {s t : Source} (h : s.Agrees t) (n : Nat) :
    (s.advanceBy n).Agrees (t.advanceBy n) := by
  induction n generalizing s t with
  | zero => exact h
  | succ n ih => exact ih h.advance

theorem Agrees.moveTo {s t : Source} (h : s.Agrees t) (c : Cursor) : (s.moveTo c).Agrees (t.moveTo c) := by
  unfold Source.moveTo
  rw [h.position]
  exact h.advanceBy _

theorem ofStream_agrees (cs : List Char) : (ofText cs).Agrees (ofStream cs) := by
  cases cs with
  | nil => exact ⟨rfl, rfl, rfl⟩
  | cons c cs =>
    refine ⟨rfl, ?_, rfl⟩
    rw [rest_eq, rest_eq]
    simp [ofText, ofStream]

/-! ## What has been pulled -/

/-- The source has `n` characters in all, has never been beyond offset `furthest`, and has pulled one
    character more than that, so far as there are any. -/
structure Drawn (n furthest : Nat) (s : Source) : Prop where
  total : s.behind.length + (s.ahead.length + s.pending.length) = n
  offset : s.position.offset = s.behind.length
  reached : s.position.offset ≤ furthest
  pulled : s.pulled = min n (1 + furthest)

namespace Drawn

variable {n furthest : Nat} {s : Source}

theorem ofStream (cs : List Char) : Drawn cs.length 0 (ofStream cs) := by
  cases cs with
  | nil => exact ⟨rfl, rfl, Nat.le_refl 0, rfl⟩
  | cons c cs =>
    refine ⟨?_, rfl, Nat.le_refl 0, ?_⟩
    · simp [Source.ofStream]
      omega
    · simp [Source.ofStream, Source.pulled]

/-- **A move pulls a character exactly if it comes further than any move before it.** -/
theorem advance (h : Drawn n furthest s) :
    Drawn n (max furthest s.advance.position.offset) s.advance := by
  obtain ⟨htotal, hoffset, hreached, hpulled⟩ := h
  unfold Source.pulled at hpulled
  unfold Source.advance
  split
  · -- at the end of the text nothing moves
    rename_i hahead
    rw [Nat.max_eq_left hreached]
    exact ⟨htotal, hoffset, hreached, hpulled⟩
  · -- the last character of the text
    rename_i c hahead hpending
    simp only [hahead, hpending, List.length_cons, List.length_nil] at htotal hpulled
    refine ⟨?_, ?_, Nat.le_max_right _ _, ?_⟩
    all_goals simp only [Source.pulled, Position.step_offset, List.length_cons, List.length_nil]
    all_goals omega
  · -- the last character that has been pulled, but not the last of the text
    rename_i c d ds hahead hpending
    simp only [hahead, hpending, List.length_cons, List.length_nil] at htotal hpulled
    refine ⟨?_, ?_, Nat.le_max_right _ _, ?_⟩
    all_goals simp only [Source.pulled, Position.step_offset, List.length_cons, List.length_nil]
    all_goals omega
  · -- the next character has been pulled before the last reset
    rename_i c d ds hahead
    simp only [hahead, List.length_cons] at htotal hpulled
    refine ⟨?_, ?_, Nat.le_max_right _ _, ?_⟩
    all_goals simp only [Source.pulled, Position.step_offset, List.length_cons]
    all_goals omega

theorem reset (h : Drawn n furthest s) : Drawn n furthest s.reset := by
  obtain ⟨htotal, _, _, hpulled⟩ := h
  unfold Source.pulled at hpulled
  refine ⟨?_, rfl, Nat.zero_le _, ?_⟩
  all_goals simp only [Source.reset, Source.pulled, List.length_append, List.length_reverse,
    List.length_nil]
  all_goals omega

end Drawn

/-- Moving never goes back. -/
theorem offset_le_advanceBy (s : Source) (k : Nat) :
    s.position.offset ≤ (s.advanceBy k).position.offset := by
  induction k generalizing s with
  | zero => exact Nat.le_refl _
  | succ k ih =>
    have hnext : s.position.offset ≤ s.advance.position.offset := by
      obtain ⟨taken, _, hpos⟩ := s.cursor.next_reaches
      rw [← advance_cursor] at hpos
      have hoffset := congrArg Position.offset hpos
      rw [Position.advance_offset] at hoffset
      exact Nat.le.intro hoffset.symm
    exact Nat.le_trans hnext (ih s.advance)

theorem Drawn.advanceBy {n furthest : Nat} {s : Source} (h : Drawn n furthest s) (k : Nat) :
    Drawn n (max furthest (s.advanceBy k).position.offset) (s.advanceBy k) := by
  induction k generalizing s furthest with
  | zero =>
    rw [Source.advanceBy, Nat.max_eq_left h.reached]
    exact h
  | succ k ih =>
    -- the first move comes no further than all of them
    have hstep := ih h.advance
    rw [Nat.max_assoc, Nat.max_eq_right (s.advance.offset_le_advanceBy k)] at hstep
    exact hstep

end Source

/-! ## Readers over both -/

/-- The same failure, reported in two contexts. -/
def ReadError.SameIn (context context' : String) (e e' : ReadError) : Prop :=
  ∃ plain : ReadError, e = plain.annotate context ∧ e' = plain.annotate context'

/-- The same result, or the same failure reported in two contexts. -/
def SameReading {α : Type} (context context' : String) :
    Except ReadError α → Except ReadError α → Prop
  | .ok a, .ok b => a = b
  | .error e, .error e' => e.SameIn context context' e'
  | _, _ => False

namespace Reader

/-- A reader over a text that is pulled character by character. -/
def ofStream (text : String) : Reader := ofSource (.ofStream text.toList)

/-- A step of a reader. -/
inductive Step where
  | read
  | reset

/-- What a step gives, if it reads, and the reader after it. -/
structure Event where
  outcome : Option (Except ReadError (Option Sexp))
  reader : Reader

def perform (r : Reader) : Step → Event
  | .read => ⟨some r.read.1, r.read.2⟩
  | .reset => ⟨none, r.reset⟩

/-- What some steps give, one after the other. -/
def trace (r : Reader) : List Step → List Event
  | [] => []
  | step :: steps => r.perform step :: (r.perform step).reader.trace steps

/-- Two readers have done the same: the outcomes are the same, but for the names of the sources in front
    of a failure, and the readers stand at the same places. -/
structure Event.Agrees (a b : Event) : Prop where
  outcome : Option.Rel (SameReading a.reader.source.describe b.reader.source.describe)
    a.outcome b.outcome
  source : a.reader.source.Agrees b.reader.source
  tokenStart : a.reader.tokenStart = b.reader.tokenStart

theorem read_agrees {r r' : Reader} (h : r.source.Agrees r'.source) :
    SameReading r.read.2.source.describe r'.read.2.source.describe r.read.1 r'.read.1
      ∧ r.read.2.source.Agrees r'.read.2.source ∧ r.read.2.tokenStart = r'.read.2.tokenStart := by
  rw [read_eq_moveTo, read_eq_moveTo, h.cursor]
  refine ⟨?_, h.moveTo _, rfl⟩
  cases r'.source.cursor.skipGap.readExpression.1 with
  | ok result => exact rfl
  | error fault => exact ⟨⟨fault.severity, fault.message⟩, rfl, rfl⟩

theorem read_agrees_of_error {r r' after : Reader} {error : ReadError}
    (h : r.source.Agrees r'.source) (hread : r.read = (.error error, after)) :
    ∃ error' after', r'.read = (.error error', after')
      ∧ error.SameIn after.source.describe after'.source.describe error'
      ∧ after.source.Agrees after'.source := by
  obtain ⟨houtcome, hsource, _⟩ := read_agrees h
  rw [hread] at houtcome hsource
  cases hread' : r'.read with
  | mk outcome' after' =>
    rw [hread'] at houtcome hsource
    cases outcome' with
    | ok result' => cases houtcome
    | error error' => exact ⟨error', after', rfl, houtcome, hsource⟩

theorem read_agrees_of_ok {r r' after : Reader} {result : Option Sexp}
    (h : r.source.Agrees r'.source) (hread : r.read = (.ok result, after)) :
    ∃ after', r'.read = (.ok result, after') ∧ after.source.Agrees after'.source
      ∧ after.tokenStart = after'.tokenStart := by
  obtain ⟨houtcome, hsource, hstart⟩ := read_agrees h
  rw [hread] at houtcome hsource hstart
  cases hread' : r'.read with
  | mk outcome' after' =>
    rw [hread'] at houtcome hsource hstart
    cases outcome' with
    | error error' => cases houtcome
    | ok result' =>
      cases houtcome
      exact ⟨after', rfl, hsource, hstart⟩

/-- One step keeps the agreement. -/
theorem perform_agrees {r r' : Reader} (h : r.source.Agrees r'.source) (step : Step) :
    (r.perform step).Agrees (r'.perform step) := by
  cases step with
  | read =>
    obtain ⟨houtcome, hsource, hstart⟩ := read_agrees h
    exact ⟨.some houtcome, hsource, hstart⟩
  | reset => exact ⟨.none, h.reset, rfl⟩

/-- **Readers at the same place of the same text do the same.** -/
theorem trace_agrees {r r' : Reader} (h : r.source.Agrees r'.source) (steps : List Step) :
    List.Forall₂ Event.Agrees (r.trace steps) (r'.trace steps) := by
  induction steps generalizing r r' with
  | nil => exact .nil
  | cons step steps ih =>
    have hstep := perform_agrees h step
    exact .cons hstep (ih hstep.source)

/-- After each event the source has pulled one character more than the furthest place it has come to,
    so far as there are any of its `n` characters; before the events it has come to `furthest`. -/
def DrawsAlong (n : Nat) : (furthest : Nat) → List Event → Prop
  | _, [] => True
  | furthest, event :: events =>
    event.reader.source.pulled = min n (1 + max furthest event.reader.position.offset)
      ∧ DrawsAlong n (max furthest event.reader.position.offset) events

theorem perform_drawn {n furthest : Nat} {r : Reader} (h : r.source.Drawn n furthest) (step : Step) :
    (r.perform step).reader.source.Drawn n
      (max furthest (r.perform step).reader.position.offset) := by
  cases step with
  | read =>
    show r.read.2.source.Drawn n (max furthest r.read.2.source.position.offset)
    rw [read_eq_moveTo]
    exact h.advanceBy _
  | reset =>
    -- the furthest place stays: going back does not give characters back
    rw [show (r.perform .reset).reader.position.offset = 0 from rfl, Nat.max_zero]
    exact h.reset

theorem trace_draws {n furthest : Nat} {r : Reader} (h : r.source.Drawn n furthest)
    (steps : List Step) : DrawsAlong n furthest (r.trace steps) := by
  induction steps generalizing r furthest with
  | nil => exact trivial
  | cons step steps ih =>
    have hstep := perform_drawn h step
    exact ⟨hstep.pulled, ih hstep⟩

end Reader

end FormScript
