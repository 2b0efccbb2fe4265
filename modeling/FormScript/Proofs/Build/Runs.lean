import FormScript.Build.Run
import FormScript.Command.Compile
import FormScript.Proofs.Build.FileTree
import FormScript.Proofs.Lowering.Promises

/-!
# What a build leaves behind

`Compiled` says what compiling one file does to a file tree, by the ways in which it can end, and a `Run` is
made of such steps: files are compiled in order up to the first failure. A step changes the output of its
file at most (`Compiled.changedAt`), and so a run changes the outputs of the inputs that it gets to
(`Run.changedAt`).

Nothing keeps the output of one input from being another input, or the output of two. So an input can be
overwritten and a reported output can be gone at the end (`inputs_and_reports_can_be_lost`); these are the
only ways (`inputs_and_reports_survive`).
-/

namespace FormScript.Build

open FileTree

/-! ## One file -/

/-- What compiling the file at a path does in a tree: the outcome, the session and the tree afterwards. -/
inductive Compiled (session : Session) (input : Path) (t : FileTree) :
    Except BuildError Report → Session → FileTree → Prop where
  | unreadable {fault : FileFault} :
      (t.cleared (outputPath input)).read input = .error fault →
      Compiled session input t (.error (.unusable input fault)) session (t.cleared (outputPath input))
  | notText {content : ByteArray} :
      (t.cleared (outputPath input)).read input = .ok content → String.fromUTF8? content = none →
      Compiled session input t (.error (.unusable input .notText)) session (t.cleared (outputPath input))
  | uncompilable {content : ByteArray} {text : String} {error : CompileError} {session' : Session} :
      (t.cleared (outputPath input)).read input = .ok content → String.fromUTF8? content = some text →
      (session.setSource (.ofText text.toList)).compile = (.error error, session') →
      Compiled session input t (.error (.uncompilable input error)) session'
        (t.cleared (outputPath input))
  | unwritable {content : ByteArray} {text code : String} {session' : Session} {fault : FileFault}
      {t' : FileTree} :
      (t.cleared (outputPath input)).read input = .ok content → String.fromUTF8? content = some text →
      (session.setSource (.ofText text.toList)).compile = (.ok code, session') →
      (t.cleared (outputPath input)).write (outputPath input) code.toUTF8 = (.error fault, t') →
      Compiled session input t (.error (.unusable (outputPath input) fault)) session' t'
  | written {content : ByteArray} {text code : String} {session' : Session} {t' : FileTree} :
      (t.cleared (outputPath input)).read input = .ok content → String.fromUTF8? content = some text →
      (session.setSource (.ofText text.toList)).compile = (.ok code, session') →
      (t.cleared (outputPath input)).write (outputPath input) code.toUTF8 = (.ok (), t') →
      Compiled session input t (.ok ⟨outputPath input, code.utf8ByteSize⟩) session' t'

/-- An attempt to remove a file, whatever comes of it. -/
theorem remove_run (path : Path) (t : FileTree) :
    ∃ removal, (FileStore.remove path : StateM FileTree _) t = (removal, t.cleared path) := by
  unfold cleared
  simp only [FileStore.remove]
  cases t.remove path with
  | error fault => exact ⟨_, rfl⟩
  | ok after => exact ⟨_, rfl⟩

/-- Compiling a file ends in one of these ways. -/
theorem compileFile_compiled (session : Session) (input : Path) (t : FileTree) :
    ∃ outcome session' t', (compileFile session input : StateM FileTree _) t = ((outcome, session'), t')
      ∧ Compiled session input t outcome session' t' := by
  obtain ⟨removal, hremove⟩ := remove_run (outputPath input) t
  unfold compileFile
  simp only [bind, StateT.bind, hremove, FileStore.read, FileStore.write]
  cases hread : (t.cleared (outputPath input)).read input with
  | error fault => exact ⟨_, _, _, rfl, .unreadable hread⟩
  | ok content =>
    dsimp only
    cases htext : String.fromUTF8? content with
    | none => exact ⟨_, _, _, rfl, .notText hread htext⟩
    | some text =>
      dsimp only
      cases hcompile : (session.setSource (.ofText text.toList)).compile with
      | mk outcome session' =>
        cases outcome with
        | error error => exact ⟨_, _, _, rfl, .uncompilable hread htext hcompile⟩
        | ok code =>
          simp only [bind, StateT.bind]
          cases hwrite : (t.cleared (outputPath input)).write (outputPath input) code.toUTF8 with
          | mk written t' =>
            cases written with
            | error fault => exact ⟨_, _, _, rfl, .unwritable hread htext hcompile hwrite⟩
            | ok _ => exact ⟨_, _, _, rfl, .written hread htext hcompile hwrite⟩

namespace Compiled

variable {session session' : Session} {input : Path} {t t' : FileTree}
  {outcome : Except BuildError Report}

/-- **Compiling a file changes its output at most.** -/
theorem changedAt (h : Compiled session input t outcome session' t') :
    ChangedAt (t.LeadsTo (outputPath input)) t t' := by
  have hremoved := changedAt_cleared t (outputPath input)
  have hwritten : ∀ code : String, ChangedAt (t.LeadsTo (outputPath input)) t
      ((t.cleared (outputPath input)).write (outputPath input) code.toUTF8).2 := by
    intro code
    obtain ⟨hchanged, _⟩ := changedAt_write (t := t.cleared (outputPath input)) (outputPath input) code.toUTF8
    exact hremoved.trans (hchanged.mono fun _ => hremoved.leadsTo_iff.mp)
  cases h with
  | unreadable _ => exact hremoved
  | notText _ _ => exact hremoved
  | uncompilable _ _ _ => exact hremoved
  | @unwritable _ _ code _ _ _ _ _ _ hwrite =>
    have hchanged := hwritten code
    rw [hwrite] at hchanged
    exact hchanged
  | @written _ _ code _ _ _ _ _ hwrite =>
    have hchanged := hwritten code
    rw [hwrite] at hchanged
    exact hchanged

/-- The report is about the output, and it is true. -/
theorem report_true {report : Report} (h : Compiled session input t (.ok report) session' t') :
    report.output = outputPath input
      ∧ ∃ content, t'.content? report.output = some content ∧ content.size = report.bytes := by
  cases h with
  | @written _ _ code _ _ _ _ _ hwrite =>
    obtain ⟨_, hcontent⟩ := changedAt_write (t := t.cleared (outputPath input)) (outputPath input) code.toUTF8
    rw [hwrite] at hcontent
    exact ⟨rfl, _, hcontent rfl, rfl⟩

/-- A file that is compiled leaves all files files. -/
theorem file_stays {report : Report} (h : Compiled session input t (.ok report) session' t')
    {path : Path} (hfile : t.kindOf path = .ok .file) : t'.kindOf path = .ok .file := by
  obtain ⟨content, hread⟩ := kindOf_eq_file_iff.mp hfile
  apply kindOf_eq_file_iff.mpr
  by_cases hsame : t.SameFile path (outputPath input)
  · obtain ⟨houtput, content', hwritten, _⟩ := h.report_true
    rw [houtput] at hwritten
    exact ⟨content', (h.changedAt.sameFile_iff.mpr hsame).content?_eq.trans hwritten⟩
  · exact ⟨content, h.changedAt.content?_eq hread fun l hl hout => hsame ⟨l, hl, hout⟩⟩

end Compiled

/-! ## Many files -/

/-- Files are compiled in order up to the first failure: the inputs, what is reported of them, the failure
    if there is one, and the tree afterwards. -/
inductive Run :
    Session → FileTree → List Path → List Report → Option BuildError → FileTree → Prop where
  | done {session : Session} {t : FileTree} : Run session t [] [] none t
  | stopped {session session' : Session} {t t' : FileTree} {input : Path} {rest : List Path}
      {error : BuildError} :
      Compiled session input t (.error error) session' t' →
      Run session t (input :: rest) [] (some error) t'
  | next {session session' : Session} {t t' t'' : FileTree} {input : Path} {rest : List Path}
      {report : Report} {reports : List Report} {error : Option BuildError} :
      Compiled session input t (.ok report) session' t' → Run session' t' rest reports error t'' →
      Run session t (input :: rest) (report :: reports) error t''

theorem compileFiles_run (session : Session) (inputs : List Path) (t : FileTree) :
    ∃ reports error t', (compileFiles session inputs : StateM FileTree _) t = ((reports, error), t')
      ∧ Run session t inputs reports error t' := by
  induction inputs generalizing session t with
  | nil => exact ⟨[], none, t, rfl, .done⟩
  | cons input rest ih =>
    obtain ⟨outcome, session', t', hfile, hcompiled⟩ := compileFile_compiled session input t
    unfold compileFiles
    simp only [bind, StateT.bind, hfile]
    cases outcome with
    | error error => exact ⟨_, _, _, rfl, .stopped hcompiled⟩
    | ok report =>
      obtain ⟨reports, error, t'', hrest, hrun⟩ := ih session' t'
      simp only [StateT.bind, hrest]
      exact ⟨_, _, _, rfl, .next hcompiled hrun⟩

/-- The inputs that a run gets to: those that it reports, and the one that it fails at. -/
def reached (inputs : List Path) (reports : List Report) : List Path :=
  inputs.take (reports.length + 1)

namespace Run

variable {session : Session} {t t' : FileTree} {inputs : List Path} {reports : List Report}
  {error : Option BuildError}

/-- **A run changes the outputs of the inputs it gets to at most.** -/
theorem changedAt (h : Run session t inputs reports error t') :
    ChangedAt (fun l => ∃ input ∈ reached inputs reports, t.LeadsTo (outputPath input) l) t t' := by
  induction h with
  | done => exact .refl _ _
  | stopped hcompiled =>
    apply hcompiled.changedAt.mono
    intro l hl
    exact ⟨_, List.mem_cons_self, hl⟩
  | next hcompiled _ ih =>
    have hfirst := hcompiled.changedAt
    apply (hfirst.mono _).trans (ih.mono _)
    · intro l hl
      exact ⟨_, List.mem_cons_self, hl⟩
    · rintro l ⟨input, hinput, hl⟩
      exact ⟨input, List.mem_cons_of_mem _ hinput, hfirst.leadsTo_iff.mp hl⟩

/-- A report is about the output of its input, and it is true at the end if no later input has an output
    that is the same file. -/
theorem report_true (h : Run session t inputs reports error t') {i : Nat} {report : Report}
    (hreport : reports[i]? = some report) :
    ∃ input, inputs[i]? = some input ∧ report.output = outputPath input
      ∧ ((∀ later ∈ (reached inputs reports).drop (i + 1),
            ¬ t.SameFile report.output (outputPath later)) →
          ∃ content, t'.content? report.output = some content ∧ content.size = report.bytes) := by
  induction h generalizing i with
  | done => cases hreport
  | stopped _ => cases hreport
  | @next _ _ _ _ _ input _ first _ _ hcompiled hrun ih =>
    have hfirst := hcompiled.changedAt
    cases i with
    | zero =>
      cases hreport
      obtain ⟨houtput, content, hread, hsize⟩ := hcompiled.report_true
      refine ⟨input, rfl, houtput, fun hlater => ⟨content, ?_, hsize⟩⟩
      apply hrun.changedAt.content?_eq hread
      rintro l hl ⟨later, hmem, hl'⟩
      exact hlater later hmem (hfirst.sameFile_iff.mp ⟨l, hl, hl'⟩)
    | succ i =>
      obtain ⟨other, hother, houtput, htrue⟩ := ih hreport
      refine ⟨other, hother, houtput, fun hlater => htrue ?_⟩
      intro later hmem hsame
      exact hlater later hmem (hfirst.sameFile_iff.mp hsame)

/-- In a run without a failure every file stays a file. -/
theorem file_stays (h : Run session t inputs reports none t') {path : Path}
    (hfile : t.kindOf path = .ok .file) : t'.kindOf path = .ok .file := by
  generalize hnone : (none : Option BuildError) = error at h
  induction h with
  | done => exact hfile
  | stopped _ => cases hnone
  | next hcompiled _ ih => exact ih (hcompiled.file_stays hfile) hnone

/-- After a run without a failure there is a file for every report. -/
theorem reported_file (h : Run session t inputs reports none t') {report : Report}
    (hreport : report ∈ reports) : t'.kindOf report.output = .ok .file := by
  generalize hnone : (none : Option BuildError) = error at h
  induction h with
  | done => cases hreport
  | stopped _ => cases hnone
  | next hcompiled hrun ih =>
    subst hnone
    rcases List.mem_cons.mp hreport with rfl | hrest
    · obtain ⟨_, content, hread, _⟩ := hcompiled.report_true
      exact hrun.file_stays (kindOf_eq_file_iff.mpr ⟨content, hread⟩)
    · exact ih hrest rfl

end Run

/-! ## The command -/

/-- The check of one input: it changes nothing, and the others are checked if the input is a file that can be
    opened. -/
theorem checkInputs_cons (input : Path) (rest : List Path) (t : FileTree) :
    (t.kindOf input = .ok .file ∧ (∃ entry, t.openToRead input = .ok entry)
        ∧ (checkInputs (input :: rest) : StateM FileTree _) t = (checkInputs rest : StateM FileTree _) t)
      ∨ ¬ (t.kindOf input = .ok .file ∧ ∃ entry, t.openToRead input = .ok entry)
        ∧ ∃ error, (checkInputs (input :: rest) : StateM FileTree _) t = (.error error, t) := by
  rw [checkInputs]
  simp only [bind, StateT.bind, FileStore.kindOf]
  cases t.kindOf input with
  | error fault => exact .inr ⟨by simp, _, rfl⟩
  | ok kind =>
    cases kind with
    | folder => exact .inr ⟨by simp, _, rfl⟩
    | file =>
      simp only [StateT.bind, FileStore.openToRead]
      cases t.openToRead input with
      | error fault => exact .inr ⟨by simp, _, rfl⟩
      | ok entry => exact .inl ⟨trivial, ⟨entry, rfl⟩, rfl⟩

/-- Inputs are accepted if all of them are files that can be opened. -/
theorem checkInputs_ok_iff {inputs : List Path} {t : FileTree} :
    ((checkInputs inputs : StateM FileTree _) t).1 = .ok ()
        ↔ ∀ path ∈ inputs, t.kindOf path = .ok .file ∧ ∃ entry, t.openToRead path = .ok entry := by
  induction inputs with
  | nil => exact ⟨fun _ _ hpath => absurd hpath List.not_mem_nil, fun _ => rfl⟩
  | cons input rest ih =>
    rw [List.forall_mem_cons, ← ih]
    rcases checkInputs_cons input rest t with ⟨hfile, hopen, hrest⟩ | ⟨hnot, error, hrun⟩
    · rw [hrest]
      exact ⟨fun h => ⟨⟨hfile, hopen⟩, h⟩, fun h => h.2⟩
    · rw [hrun]
      constructor
      · intro h
        cases h
      · rintro ⟨h, _⟩
        exact absurd h hnot

/-- Checking changes nothing. -/
theorem checkInputs_tree (inputs : List Path) (t : FileTree) :
    ((checkInputs inputs : StateM FileTree _) t).2 = t := by
  induction inputs with
  | nil => rfl
  | cons input rest ih =>
    rcases checkInputs_cons input rest t with ⟨_, _, hrest⟩ | ⟨_, error, hrun⟩
    · rw [hrest]
      exact ih
    · rw [hrun]

end FormScript.Build

namespace FormScript

open Build FileTree Command

/-- What the command shows of a build: the reports, and the failure if there is one. -/
def Command.transcriptOf (reports : List Report) (error : Option BuildError) : Transcript :=
  error.elim (.success (lines (reports.map Report.line)) "") fun error =>
    .failure (lines (reports.map Report.line)) "" error.message

/-- Without options the command compiles accepted inputs in a new session. -/
theorem compile_of_accepted {t : FileTree} {args : List Path} (hargs : args ≠ [])
    (hoptions : ∀ arg ∈ args, isOption arg = false)
    (hchecked : ((checkInputs args : StateM FileTree _) t).1 = .ok ()) :
    ∃ reports error after,
      (Command.compile args : StateM FileTree Transcript) t = (transcriptOf reports error, after)
        ∧ Run (.ofText "") t args reports error after := by
  have hnone : args.find? isOption = none := by
    rw [List.find?_eq_none]
    intro arg harg
    simp [hoptions arg harg]
  have haccepted : (checkInputs args : StateM FileTree _) t = (.ok (), t) :=
    Prod.ext hchecked (checkInputs_tree args t)
  obtain ⟨reports, error, after, hfiles, hrun⟩ := compileFiles_run (.ofText "") args t
  have hbuild : (build args : StateM FileTree _) t = ((reports, error), after) := by
    unfold build
    simp only [bind, StateT.bind, haccepted]
    exact hfiles
  refine ⟨reports, error, after, ?_, hrun⟩
  unfold Command.compile
  simp only [hnone, List.isEmpty_iff, if_neg hargs, bind, StateT.bind, hbuild]
  cases error with
  | none => rfl
  | some error => rfl

theorem compile_run {t : FileTree} {args : List Path} (hargs : args ≠ [])
    (hoptions : ∀ arg ∈ args, isOption arg = false)
    (hchecked : ((checkInputs args : StateM FileTree _) t).1 = .ok ()) :
    ∃ transcript reports error after,
      (Command.compile args : StateM FileTree Transcript) t = (transcript, after)
        ∧ transcript.out = lines (reports.map Report.line) ∧ (transcript.exitCode = 0 → error = none)
        ∧ Run (.ofText "") t args reports error after := by
  obtain ⟨reports, error, after, hcompile, hrun⟩ := compile_of_accepted hargs hoptions hchecked
  refine ⟨_, reports, error, after, hcompile, ?_, ?_, hrun⟩
  · cases error with
    | none => rfl
    | some error => rfl
  · intro hexit
    cases error with
    | none => rfl
    | some error => cases hexit

/-- **Inputs and reports survive where outputs do not collide.** Let the command be run without options on
    inputs that it accepts.

    * An input has its content at the end, unless it is the same file as the output of another input that
      the run gets to.
    * There is a report for each input compiled, in order, about its output. At the end a file of as many
      bytes is there, unless the output of a later input that the run gets to is the same file.
    * If the run succeeds, the inputs and the reported outputs are files at the end in any case. -/
theorem inputs_and_reports_survive (t : FileTree) (args : List Path) (hargs : args ≠ [])
    (hoptions : ∀ arg ∈ args, isOption arg = false)
    (hchecked : ((checkInputs args : StateM FileTree _) t).1 = .ok ()) :
    ∃ transcript reports after,
      (Command.compile args : StateM FileTree Transcript) t = (transcript, after)
      ∧ transcript.out = lines (reports.map Report.line)
      ∧ (∀ input ∈ args,
          (∀ other ∈ reached args reports, other ≠ input → ¬ t.SameFile input (outputPath other)) →
          ∃ content, t.read input = .ok content ∧ after.read input = .ok content)
      ∧ (∀ i report, reports[i]? = some report →
          ∃ input, args[i]? = some input ∧ report.output = outputPath input
            ∧ ((∀ later ∈ (reached args reports).drop (i + 1),
                  ¬ t.SameFile report.output (outputPath later)) →
                ∃ content, after.content? report.output = some content ∧ content.size = report.bytes))
      ∧ (transcript.exitCode = 0 →
          (∀ input ∈ args, after.kindOf input = .ok .file)
            ∧ ∀ report ∈ reports, after.kindOf report.output = .ok .file) := by
  obtain ⟨transcript, reports, error, after, hcompile, hout, hexit, hrun⟩ :=
    compile_run hargs hoptions hchecked
  have hfiles := checkInputs_ok_iff.mp hchecked
  refine ⟨transcript, reports, after, hcompile, hout, ?_, fun i report => hrun.report_true, ?_⟩
  · intro input hinput hothers
    obtain ⟨content, hread⟩ := readable_iff.mpr (hfiles input hinput)
    refine ⟨content, hread, hrun.changedAt.read_eq hread ?_⟩
    rintro l hl ⟨other, hother, hl'⟩
    by_cases hself : other = input
    · subst hself
      exact not_sameFile_outputPath t other ⟨l, hl, hl'⟩
    · exact hothers other hother hself ⟨l, hl, hl'⟩
  · intro hsuccess
    obtain rfl := hexit hsuccess
    exact ⟨fun input hinput => hrun.file_stays (hfiles input hinput).1, fun _ => hrun.reported_file⟩

/-- A program with an old output, named from the root, and after it one in the working folder that cannot be
    compiled. -/
theorem inputs_and_reports_survive_failure :
    let t : FileTree := {
      entries := [([], .folder), (["w"], .folder), (["w", "a.lisp"], .file "x".toUTF8),
        (["w", "a.js"], .file "old".toUTF8), (["w", "b.lisp"], .file ")".toUTF8)]
      home := ["w"] }
    let args : List Path := ["/w/a.lisp", "b.lisp"]
    ((checkInputs args : StateM FileTree _) t).1 = .ok ()
      ∧ ∃ (transcript : Transcript) (reports : List Report) (after : FileTree),
        (Command.compile args : StateM FileTree Transcript) t = (transcript, after)
        ∧ transcript.exitCode = 1 ∧ transcript.out = "/w/a.js: 3 bytes\n"
        ∧ transcript.out = lines (reports.map Report.line)
        ∧ after.read "/w/a.lisp" = t.read "/w/a.lisp" ∧ after.read "b.lisp" = t.read "b.lisp"
        ∧ ∃ report ∈ reports, report.output = .ofText "/w/a.js"
          ∧ ∃ content, after.content? "/w/a.js" = some content ∧ content.size = report.bytes := by
  intro t args
  have hchecked : ((checkInputs args : StateM FileTree _) t).1 = .ok () :=
    ok_of_toOption (by decide +kernel)
  have hexit : ((Command.compile args : StateM FileTree Transcript) t).1.exitCode = 1 := by
    decide +kernel
  have htext : ((Command.compile args : StateM FileTree Transcript) t).1.out
      = "/w/a.js: 3 bytes\n" := by decide +kernel
  obtain ⟨transcript, reports, after, hcompile, hout, hinputs, hreports, _⟩ :=
    inputs_and_reports_survive t args (List.cons_ne_nil _ _) (by decide +kernel) hchecked
  rw [hcompile] at hexit htext
  have hapart : ∀ input ∈ args, ∀ other ∈ args, ¬ t.SameFile input (outputPath other) := by
    decide +kernel
  have hread : ∀ input ∈ args, after.read input = t.read input := by
    intro input hinput
    obtain ⟨content, hbefore, hafter⟩ := hinputs input hinput fun other hother _ =>
      hapart input hinput other (List.mem_of_mem_take hother)
    exact hafter.trans hbefore.symm
  refine ⟨hchecked, transcript, reports, after, hcompile, hexit, htext, hout,
    hread _ List.mem_cons_self, hread _ (List.mem_cons_of_mem _ List.mem_cons_self), ?_⟩
  cases reports with
  | nil =>
    rw [htext] at hout
    exact absurd hout (by decide)
  | cons report rest =>
    obtain ⟨input, hinput, houtput, htrue⟩ := hreports 0 report rfl
    cases hinput
    have houtput : report.output = .ofText "/w/a.js" := houtput.trans (by decide +kernel)
    rw [houtput] at htrue
    refine ⟨report, List.mem_cons_self, houtput, htrue ?_⟩
    intro later hlater
    have hlater : later ∈ [ByteString.ofText "b.lisp"] := List.mem_of_mem_take hlater
    rw [List.mem_singleton.mp hlater]
    decide +kernel

/-- **Files can be lost.** The output `a.js` of an input is the next input, and is overwritten. And a program
    that calls a name before it defines a macro for it compiles once; compiled again it fails, and the
    reported output is gone. -/
theorem inputs_and_reports_can_be_lost :
    let t : FileTree := {
      entries := [([], .folder), (["w"], .folder), (["w", "a.lisp"], .file "x".toUTF8),
        (["w", "a.js"], .file "y;\n".toUTF8)]
      home := ["w"] }
    let u : FileTree := {
      entries := [([], .folder), (["w"], .folder),
        (["w", "a.lisp"], .file "(m x) (macro m () y)".toUTF8)]
      home := ["w"] }
    let first : StateM FileTree Transcript := Command.compile ["a.lisp", "a.js"]
    let second : StateM FileTree Transcript := Command.compile ["a.lisp", "a.lisp"]
    (((checkInputs ["a.lisp", "a.js"] : StateM FileTree _) t).1 = .ok ()
        ∧ t.read "a.js" = .ok "y;\n".toUTF8 ∧ (first t).2.read "a.js" = .ok "x;\n".toUTF8)
      ∧ ((checkInputs ["a.lisp", "a.lisp"] : StateM FileTree _) u).1 = .ok ()
        ∧ (second u).1.out = "a.js: 8 bytes\n" ∧ (second u).2.kindOf "a.js" ≠ .ok .file := by
  intro t u first second
  refine ⟨⟨?_, ?_, ?_⟩, ?_, ?_, ?_⟩
  · exact ok_of_toOption (by decide +kernel)
  · exact ok_of_toOption (by decide +kernel)
  · exact ok_of_toOption (by decide +kernel)
  · exact ok_of_toOption (by decide +kernel)
  · decide +kernel
  · intro hfile
    have hgone : ((second u).2.kindOf "a.js").toOption = none := by decide +kernel
    rw [hfile] at hgone
    cases hgone

end FormScript
