import FormScript.Proofs.Compiling.Histories
import FormScript.Proofs.Compiling.Streams
import FormScript.Proofs.Reading.Places

/-!
# Failed readings are final

A reader that has met the end of its text inside an expression has nothing more to give, and one that has
met a closing bracket where none can stand does not get past it. In both cases the next reading takes no
character (`Reader.Settled`), so all the readings after it, and all the compilations of a session that
reads there, give the same again.
-/

namespace FormScript

namespace Reader

/-- The reader after `n` more readings. -/
def afterReads (r : Reader) : Nat → Reader
  | 0 => r
  | n + 1 => r.read.2.afterReads n

theorem read_reaches (r : Reader) : r.source.cursor.Reaches r.read.2.source.cursor := by
  rw [read_cursor]
  exact r.source.cursor.skipGap_reaches.trans (Cursor.readWithin_reaches [] _)

theorem afterReads_reaches (r : Reader) (n : Nat) :
    r.source.cursor.Reaches (r.afterReads n).source.cursor := by
  induction n generalizing r with
  | zero => exact .refl _
  | succ n ih => exact r.read_reaches.trans (ih r.read.2)

/-- The next reading gives `outcome` where the reader stands, and takes no character. -/
structure Settled (r : Reader) (outcome : Except ReadFault (Option Sexp)) : Prop where
  not_gap : beginsGap r.rest = false
  run : r.source.cursor.readWithin [] = (outcome, r.source.cursor)

theorem settled_of_rest_nil {r : Reader} (h : r.rest = []) : r.Settled (.ok none) := by
  have hgap : beginsGap r.rest = false := by rw [h]; rfl
  have hskip : r.source.cursor.skipGap = r.source.cursor := Cursor.skipGap_of_not_begins hgap
  have hrun := Cursor.readWithin_nil_of_skipGap (c := r.source.cursor) (by rw [hskip]; exact h)
  rw [hskip] at hrun
  exact ⟨hgap, hrun⟩

theorem settled_of_closing {r : Reader} {b : Bracket} (h : r.rest.head? = some b.closing) :
    r.Settled (.error (.unexpectedClosing b)) := by
  obtain ⟨tail, htail⟩ := List.head?_eq_some_iff.mp h
  have hgap : beginsGap r.rest = false := by rw [htail]; exact Bracket.not_beginsGap_closing b tail
  have hskip : r.source.cursor.skipGap = r.source.cursor := Cursor.skipGap_of_not_begins hgap
  have hcursor : r.source.cursor = ⟨b.closing :: tail, r.position⟩ := by rw [← htail]; rfl
  refine ⟨hgap, ?_⟩
  have hstep : Cursor.readStep [] ⟨b.closing :: tail, r.position⟩
      = .done (.error (.unexpectedClosing b)) ⟨b.closing :: tail, r.position⟩ :=
    (Cursor.StepsTo.unexpected b.ofOpening?_closing b.ofClosing?_closing (by simp)).readStep_eq
  rw [Cursor.readWithin_eq, hskip, hcursor, hstep]
  rfl

namespace Settled

variable {r : Reader} {outcome : Except ReadFault (Option Sexp)}

theorem read_eq (h : r.Settled outcome) :
    r.read = (outcome.mapError fun fault => .ofFault fault r.source.describe,
      ⟨r.source, r.position⟩) := by
  have hskip : r.source.cursor.skipGap = r.source.cursor := Cursor.skipGap_of_not_begins h.not_gap
  rw [read_eq_moveTo, hskip]
  simp only [Cursor.readExpression, h.run, Source.moveTo_self]
  rfl

/-- **Where reading takes no character, it goes on as it has begun.** -/
theorem afterReads_read (h : r.Settled outcome) (k : Nat) :
    (r.afterReads k).read = (outcome.mapError fun fault => .ofFault fault r.source.describe,
      ⟨r.source, r.position⟩) := by
  induction k generalizing r with
  | zero => exact h.read_eq
  | succ k ih =>
    have hsettled : Settled ⟨r.source, r.position⟩ outcome := ⟨h.not_gap, h.run⟩
    rw [afterReads, h.read_eq]
    exact ih hsettled

end Settled

variable {r after : Reader} {error : ReadError}

/-- What is cut off is read to the end. -/
theorem rest_nil_of_incomplete (h : r.read = (.error error, after))
    (hseverity : error.severity = .incomplete) : after.rest = [] := by
  obtain ⟨_, fault, _, hrun, rfl⟩ := read_error h
  exact (Cursor.readWithin_faultAt hrun).incomplete hseverity

/-- An unexpected bracket is not taken. -/
theorem head?_of_unexpected {b : Bracket} (h : r.read = (.error error, after))
    (herror : error = .ofFault (.unexpectedClosing b) after.source.describe) :
    after.rest.head? = some b.closing := by
  obtain ⟨_, fault, _, hrun, hfault⟩ := read_error h
  rw [ReadError.ofFault_injective (hfault.symm.trans herror)] at hrun
  exact Cursor.readWithin_faultAt hrun

end Reader

namespace Session

variable {s : Session}

/-- The session as a reading that takes no character leaves it. -/
def settle (s : Session) : Session := { s with reader := ⟨s.reader.source, s.reader.position⟩ }

theorem compile_of_settled (h : s.reader.Settled (.ok none)) : s.compile = (.ok "\n", s.settle) :=
  compileFrom_of_none h.read_eq s.state s.formStart ""

theorem compile_of_settled_fault {fault : ReadFault} (h : s.reader.Settled (.error fault)) :
    s.compile = (.error ⟨s.reader.position, .unreadable (.ofFault fault s.reader.source.describe)⟩,
      s.settle) :=
  compileFrom_of_error h.read_eq s.state s.formStart ""

/-- **A compilation that changes nothing can be repeated.** -/
theorem after_compiles {outcome : Except CompileError String} (h : s.compile = (outcome, s.settle))
    (hsettle : s.settle.compile = (outcome, s.settle)) (k : Nat) :
    (s.after (List.replicate k .compile)).compile = (outcome, s.settle) := by
  induction k generalizing s with
  | zero => exact h
  | succ k ih =>
    have hfirst : s.perform .compile = s.settle := congrArg Prod.snd h
    have hlater := ih (s := s.settle) hsettle hsettle
    rw [List.replicate_succ, after, List.foldl_cons, hfirst]
    exact hlater

/-- A compilation that ends at something unreadable leaves the reader as the failed reading left it. -/
theorem read_of_unreadable {reader : Reader} {state : Lowering.State} {formStart position : Position}
    {out : String} {error : ReadError} {stopped : Session}
    (h : compileFrom reader state formStart out = (.error ⟨position, .unreadable error⟩, stopped)) :
    position = stopped.reader.position ∧ ∃ last : Reader, last.read = (.error error, stopped.reader) := by
  fun_induction compileFrom reader state formStart out with
  | case1 reader state formStart out error' after hread =>
    cases h
    exact ⟨rfl, reader, hread⟩
  | case2 reader state formStart out after hread => cases h
  | case3 reader state formStart out e after hread fault state' hlower => cases h
  | case4 reader state formStart out e after hread text state' hlower ih => exact ih h

end Session

/-- **After a failed reading nothing is resurrected.** A reader has read `n` times from a text, held whole
    or streamed, and reads once more. If what it reads is cut off, it is at the end of the text, and every
    later reading gives nothing and leaves it there. If it meets an unexpected closing bracket, it stands on
    it, and every later reading fails with the same report, and leaves both the place of the reader and the
    start of its last expression at the bracket. A session in which a compilation fails so gives a single line
    feed, or the same failure at the same place, every time it compiles again, and keeps its macros. -/
theorem failed_readings_are_final (text : List Char) (source : Source)
    (hsource : source = .ofText text ∨ source = .ofStream text) (n : Nat) (s : Session) :
    (∀ (error : ReadError) (after : Reader),
      ((Reader.ofSource source).afterReads n).read = (.error error, after) →
        (error.severity = .incomplete →
          after.position.offset = text.length
            ∧ ∀ k, (after.afterReads k).read = (.ok none, ⟨after.source, after.position⟩))
        ∧ ∀ b : Bracket, error = .ofFault (.unexpectedClosing b) after.source.describe →
          text[after.position.offset]? = some b.closing
            ∧ ∀ k, (after.afterReads k).read = (.error error, ⟨after.source, after.position⟩))
      ∧ ∀ (position : Position) (error : ReadError) (stopped : Session),
        s.compile = (.error ⟨position, .unreadable error⟩, stopped) →
          (error.severity = .incomplete → ∀ k,
            (stopped.after (List.replicate k .compile)).compile.1 = .ok "\n"
              ∧ (stopped.after (List.replicate k .compile)).compile.2.registry = stopped.registry)
          ∧ ∀ b : Bracket,
            error = .ofFault (.unexpectedClosing b) stopped.reader.source.describe → ∀ k,
              (stopped.after (List.replicate k .compile)).compile.1
                  = .error ⟨position, .unreadable error⟩
                ∧ (stopped.after (List.replicate k .compile)).compile.2.registry
                  = stopped.registry := by
  have hcursor : (Reader.ofSource source).source.cursor = Cursor.ofText text := by
    obtain rfl | rfl := hsource
    · exact rfl
    · exact (Source.ofStream_agrees text).cursor.symm
  constructor
  · intro error after hread
    have hreach := ((Reader.ofSource source).afterReads_reaches n).trans (Reader.read_reaches _)
    rw [hcursor, hread] at hreach
    obtain ⟨⟨hle, _, _⟩, hdrop⟩ := hreach.placed
    have hrest : text.drop after.position.offset = after.rest := hdrop
    constructor
    · intro hseverity
      have hnil := Reader.rest_nil_of_incomplete hread hseverity
      refine ⟨?_, fun k => (Reader.settled_of_rest_nil hnil).afterReads_read k⟩
      rw [hnil, List.drop_eq_nil_iff] at hrest
      exact Nat.le_antisymm hle hrest
    · intro b herror
      have hhead := Reader.head?_of_unexpected hread herror
      constructor
      · rw [← hhead, ← hrest, List.head?_drop]
      · intro k
        rw [herror]
        exact (Reader.settled_of_closing hhead).afterReads_read k
  · intro position error stopped hcompile
    obtain ⟨rfl, last, hread⟩ := Session.read_of_unreadable hcompile
    constructor
    · intro hseverity k
      have hsettled := Reader.settled_of_rest_nil (Reader.rest_nil_of_incomplete hread hseverity)
      have hlater := Session.after_compiles (Session.compile_of_settled hsettled)
        (Session.compile_of_settled ⟨hsettled.not_gap, hsettled.run⟩) k
      rw [hlater]
      exact ⟨rfl, rfl⟩
    · intro b herror k
      have hsettled := Reader.settled_of_closing (Reader.head?_of_unexpected hread herror)
      have hlater := Session.after_compiles (Session.compile_of_settled_fault hsettled)
        (Session.compile_of_settled_fault ⟨hsettled.not_gap, hsettled.run⟩) k
      rw [hlater, herror]
      exact ⟨rfl, rfl⟩

/-- A bracket of another kind inside a group, met in the second reading; and a string that is cut off in a
    group, met in a compilation. -/
theorem failed_readings_are_final_inside_groups :
    (∃ after : Reader, ((Reader.ofText "x (a] b").afterReads 1).read
          = (.error (.ofFault (.unexpectedClosing .square) "<text 7 chars>"), after)
        ∧ after.position = ⟨4, 1, 5⟩
        ∧ ∀ k, (after.afterReads k).read
          = (.error (.ofFault (.unexpectedClosing .square) "<text 7 chars>"),
            ⟨after.source, after.position⟩))
      ∧ ∃ stopped : Session, (Session.ofText "(f \"a").compile
          = (.error ⟨⟨5, 1, 6⟩, .unreadable (.ofFault .unterminatedString "<text 5 chars>")⟩, stopped)
        ∧ ∀ k, (stopped.after (List.replicate k .compile)).compile.1 = .ok "\n" := by
  have hread : ((Reader.ofText "x (a] b").afterReads 1).read.1
      = .error (.ofFault (.unexpectedClosing .square) "<text 7 chars>") := by
    with_unfolding_all rfl
  have hcompile : (Session.ofText "(f \"a").compile.1
      = .error ⟨⟨5, 1, 6⟩, .unreadable (.ofFault .unterminatedString "<text 5 chars>")⟩ := by
    with_unfolding_all rfl
  obtain ⟨hreadings, _⟩ := failed_readings_are_final "x (a] b".toList _ (.inl rfl) 1
    (Session.ofText "x (a] b")
  obtain ⟨_, hsession⟩ := failed_readings_are_final "(f \"a".toList _ (.inl rfl) 0 (Session.ofText "(f \"a")
  constructor
  · refine ⟨_, Prod.ext hread rfl, by decide +kernel, ?_⟩
    exact ((hreadings _ _ (Prod.ext hread rfl)).2 .square (by decide +kernel)).2
  · refine ⟨_, Prod.ext hcompile rfl, ?_⟩
    exact fun k => ((hsession _ _ _ (Prod.ext hcompile rfl)).1 rfl k).1

end FormScript
