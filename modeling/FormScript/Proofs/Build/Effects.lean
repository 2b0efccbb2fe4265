import FormScript.Proofs.Build.Stages
import FormScript.Proofs.Compiling.Registries

/-!
# What compiling one file does

Compiling a file begins with an attempt to remove its old output, and may then fail at four points: the
program cannot be read, it is no text, it does not compile, or its output cannot be written. `Effect` says
what is different afterwards, in the tree and in the session, for each way to end. The tree differs at the
output at most, which is never the program itself, and the session keeps the names of its macros.

Where the program is at fault there is no output, unless an old one could not be removed (`OutputCleared`).
A failed removal is passed over, so that such an output stays (`stale_output_survives`).
-/

namespace FormScript

namespace Session

theorem Reachable.idle {s : Session} (h : s.Reachable) : s.Idle := by
  obtain ⟨start, history, rfl⟩ := h
  exact after_idle (ofSource_idle start) history

theorem Reachable.perform {s : Session} (h : s.Reachable) (step : Step) : (s.perform step).Reachable := by
  obtain ⟨start, history, rfl⟩ := h
  exact ⟨start, history ++ [step], List.foldl_append⟩

end Session

namespace Build

open FileTree Session

/-! ## The program and its output -/

theorem outputPath_ne (path : Path) : outputPath path ≠ path := by
  intro hsame
  obtain ⟨suffix, hbytes, hsuffix⟩ := bytes_eq_stem_append path
  have houtput := outputPath_bytes path
  rw [hsame, hbytes] at houtput
  have hsame : suffix = (ByteString.ofText targetSuffix).bytes := List.append_cancel_left houtput
  rcases hsuffix with rfl | rfl <;> revert hsame <;> decide +kernel

/-- Removing the output leaves the program as it is. -/
theorem FileTree.read_cleared_outputPath {t : FileTree} {input : Path} {content : ByteArray} :
    (t.cleared (outputPath input)).read input = .ok content ↔ t.read input = .ok content := by
  have hchanged := changedAt_cleared t (outputPath input)
  have haway : ∀ l, t.LeadsTo input l → ¬ t.LeadsTo (outputPath input) l :=
    fun l hinput houtput => not_sameFile_outputPath t input ⟨l, hinput, houtput⟩
  constructor
  · intro hread
    exact hchanged.symm.read_eq hread fun l hl => haway l (hchanged.leadsTo_iff.mp hl)
  · intro hread
    exact hchanged.read_eq hread haway

/-! ## The effect -/

/-- What an attempt to remove the output leaves behind: there is a file at the output exactly if there was one
    and the removal failed, and a removal that fails changes nothing. -/
structure OutputCleared (t : FileTree) (output : Path) (t' : FileTree) : Prop where
  file_iff : t'.kindOf output = .ok .file
    ↔ t.kindOf output = .ok .file ∧ ∃ fault, t.remove output = .error fault
  unchanged : ∀ fault, t.remove output = .error fault → t' = t

theorem outputCleared (t : FileTree) (output : Path) : OutputCleared t output (t.cleared output) :=
  ⟨kindOf_cleared_eq_file_iff, fun _ => cleared_of_error⟩

/-- What compiling the program at `input` does to the tree `t` and to the session, when it ends with the
    outcome, the session `session'` and the tree `t'`. -/
structure Effect (t : FileTree) (session : Session) (input : Path) (outcome : Except BuildError Report)
    (session' : Session) (t' : FileTree) : Prop where
  /-- The output is another path than the program, and another file. -/
  apart : outputPath input ≠ input ∧ ¬ t.SameFile input (outputPath input)
  /-- Nothing changes away from the output. -/
  elsewhere : ∀ l, ¬ t.LeadsTo (outputPath input) l → t'.get? l = t.get? l
  /-- Folders stay, also one at the output. -/
  folders : ∀ l refuses, t'.get? l = some ⟨.folder, refuses⟩ ↔ t.get? l = some ⟨.folder, refuses⟩
  /-- A report is given of a text that compiles with the macros of the session: the code is all that is in
      the output, and its bytes are counted. -/
  compiled : ∀ report, outcome = .ok report → ∃ text code : String, t.read input = .ok text.toUTF8
    ∧ (compileKnowing session.registry text).1 = .ok code
    ∧ t'.content? (outputPath input) = some code.toUTF8
    ∧ report.output = outputPath input ∧ report.bytes = code.toUTF8.size
  /-- The program is unusable if it is not a file with a text in it that can be read. -/
  unusable_iff : (∃ fault, outcome = .error (.unusable input fault))
    ↔ ∀ text : String, t.read input ≠ .ok text.toUTF8
  /-- It is uncompilable if its text does not compile with the macros of the session. -/
  uncompilable_iff : ∀ error, outcome = .error (.uncompilable input error)
    ↔ ∃ text : String, t.read input = .ok text.toUTF8
      ∧ (compileKnowing session.registry text).1 = .error error
  /-- An unusable program leaves no output but one that cannot be removed, and defines nothing. -/
  unusable : ∀ fault, outcome = .error (.unusable input fault) →
    OutputCleared t (outputPath input) t' ∧ session'.registry = session.registry
  /-- An uncompilable program leaves no output but one that cannot be removed, and what it defines takes no
      name away. -/
  uncompilable : ∀ error, outcome = .error (.uncompilable input error) →
    OutputCleared t (outputPath input) t'
      ∧ ∀ name, session.registry.contains name = true → session'.registry.contains name = true

/-- Of a program one of three things is true: it is no text, its text does not compile, or its text compiles
    to some code. The text and the outcome of compiling it leave no choice. -/
inductive Verdict (t : FileTree) (r : Registry) (input : Path) (outcome : Except BuildError Report) :
    Prop where
  | unusable {fault : FileFault} : (∀ text : String, t.read input ≠ .ok text.toUTF8) →
      outcome = .error (.unusable input fault) → Verdict t r input outcome
  | uncompilable {text : String} {error : CompileError} : t.read input = .ok text.toUTF8 →
      (compileKnowing r text).1 = .error error → outcome = .error (.uncompilable input error) →
      Verdict t r input outcome
  | compilable {text code : String} : t.read input = .ok text.toUTF8 →
      (compileKnowing r text).1 = .ok code →
      ((∃ report, outcome = .ok report) ∨ ∃ fault, outcome = .error (.unusable (outputPath input) fault)) →
      Verdict t r input outcome

/-- A file has one text. -/
theorem text_unique {t : FileTree} {input : Path} {text text' : String} (h : t.read input = .ok text.toUTF8)
    (h' : t.read input = .ok text'.toUTF8) : text = text' := by
  have hsame : text.toUTF8 = text'.toUTF8 := Except.ok.inj (h.symm.trans h')
  have htext := ByteString.fromUTF8?_eq_some_iff.mpr hsame
  rw [ByteString.fromUTF8?_eq_some_iff.mpr rfl] at htext
  exact Option.some.inj htext

namespace Verdict

variable {t : FileTree} {r : Registry} {input : Path} {outcome : Except BuildError Report}

theorem unusable_iff (h : Verdict t r input outcome) :
    (∃ fault, outcome = .error (.unusable input fault))
      ↔ ∀ text : String, t.read input ≠ .ok text.toUTF8 := by
  cases h with
  | unusable hnone houtcome => exact ⟨fun _ => hnone, fun _ => ⟨_, houtcome⟩⟩
  | uncompilable hread _ houtcome =>
    refine ⟨?_, fun hnone => absurd hread (hnone _)⟩
    rintro ⟨fault, rfl⟩
    cases houtcome
  | compilable hread _ houtcome =>
    refine ⟨?_, fun hnone => absurd hread (hnone _)⟩
    rintro ⟨fault, rfl⟩
    rcases houtcome with ⟨report, hreport⟩ | ⟨fault', hfault⟩
    · cases hreport
    · injection hfault with hfault
      injection hfault with hpath _
      exact absurd hpath.symm (outputPath_ne input)

theorem uncompilable_iff (h : Verdict t r input outcome) (error : CompileError) :
    outcome = .error (.uncompilable input error)
      ↔ ∃ text : String, t.read input = .ok text.toUTF8 ∧ (compileKnowing r text).1 = .error error := by
  cases h with
  | unusable hnone houtcome =>
    refine ⟨?_, fun ⟨text, hread, _⟩ => absurd hread (hnone text)⟩
    rintro rfl
    cases houtcome
  | uncompilable hread hfails houtcome =>
    constructor
    · rintro rfl
      cases houtcome
      exact ⟨_, hread, hfails⟩
    · rintro ⟨text', hread', hfails'⟩
      rw [← text_unique hread hread', hfails] at hfails'
      cases hfails'
      exact houtcome
  | compilable hread hok houtcome =>
    constructor
    · rintro rfl
      rcases houtcome with ⟨report, hreport⟩ | ⟨fault, hfault⟩
      · cases hreport
      · cases hfault
    · rintro ⟨text', hread', hfails'⟩
      rw [← text_unique hread hread', hok] at hfails'
      cases hfails'

end Verdict

namespace Compiled

variable {session session' : Session} {input : Path} {t t' : FileTree}
  {outcome : Except BuildError Report}

theorem verdict (h : Compiled session input t outcome session' t') (hidle : session.Idle) :
    Verdict t session.registry input outcome := by
  cases outcome with
  | ok report =>
    obtain ⟨code, ⟨⟨text, hread, hknowing⟩, _⟩, _, _⟩ := h.stage hidle
    exact .compilable (read_cleared_outputPath.mp hread) (by rw [hknowing]) (.inl ⟨_, rfl⟩)
  | error error =>
    cases h.fails hidle with
    | unreadable hread =>
      refine .unusable ?_ rfl
      intro text hok
      rw [read_cleared_outputPath.mpr hok] at hread
      cases hread
    | notText hread hnone =>
      refine .unusable ?_ rfl
      intro text hok
      rw [read_cleared_outputPath.mpr hok] at hread
      exact hnone text (Except.ok.inj hread).symm
    | uncompilable hread hknowing => exact .uncompilable (read_cleared_outputPath.mp hread) hknowing rfl
    | unwritable hread hknowing _ =>
      exact .compilable (read_cleared_outputPath.mp hread) hknowing (.inr ⟨_, rfl⟩)

/-- The session afterwards is the one before, or comes about from it by turning to the program and compiling
    it. -/
theorem session_eq (h : Compiled session input t outcome session' t') :
    session' = session ∧ (∃ fault, outcome = .error (.unusable input fault))
      ∨ ∃ source, session' = session.after [.setSource source, .compile]
        ∧ ∀ fault, outcome ≠ .error (.unusable input fault) := by
  have hcompile : ∀ {text : String} {result : Except CompileError String},
      (session.setSource (.ofText text.toList)).compile = (result, session') →
      session' = session.after [.setSource (.ofText text.toList), .compile] := by
    intro text result h
    exact (congrArg Prod.snd h).symm
  cases h with
  | unreadable _ => exact .inl ⟨rfl, _, rfl⟩
  | notText _ _ => exact .inl ⟨rfl, _, rfl⟩
  | uncompilable _ _ hrun =>
    refine .inr ⟨_, hcompile hrun, ?_⟩
    intro fault houtcome
    cases houtcome
  | unwritable _ _ hrun _ =>
    refine .inr ⟨_, hcompile hrun, ?_⟩
    intro fault houtcome
    injection houtcome with houtcome
    injection houtcome with hpath _
    exact outputPath_ne input hpath
  | written _ _ hrun _ =>
    refine .inr ⟨_, hcompile hrun, ?_⟩
    intro fault houtcome
    cases houtcome

/-- Compiling takes no name of a macro away. -/
theorem contains (h : Compiled session input t outcome session' t') {name : String}
    (hname : session.registry.contains name = true) : session'.registry.contains name = true := by
  rcases h.session_eq with ⟨rfl, _⟩ | ⟨source, rfl, _⟩
  · exact hname
  · exact after_invariant (contains_sound name) hname _

/-- What a program that is at fault leaves at its output. -/
theorem cleared {error : BuildError} (h : Compiled session input t (.error error) session' t')
    (hinput : ∀ fault, error ≠ .unusable (outputPath input) fault) :
    OutputCleared t (outputPath input) t' := by
  cases h with
  | unreadable _ => exact outputCleared t (outputPath input)
  | notText _ _ => exact outputCleared t (outputPath input)
  | uncompilable _ _ _ => exact outputCleared t (outputPath input)
  | unwritable _ _ _ _ => exact absurd rfl (hinput _)

/-- **Compiling a file has no other effect.** -/
theorem effect (h : Compiled session input t outcome session' t') (hidle : session.Idle) :
    Effect t session input outcome session' t' where
  apart := ⟨outputPath_ne input, not_sameFile_outputPath t input⟩
  elsewhere := h.changedAt.elsewhere
  folders := h.changedAt.folders
  compiled := by
    rintro report rfl
    obtain ⟨code, ⟨⟨text, hread, hknowing⟩, hwrite⟩, rfl, _⟩ := h.stage hidle
    obtain ⟨_, hcontent⟩ := changedAt_write (t := t.cleared (outputPath input)) (outputPath input) code.toUTF8
    rw [hwrite] at hcontent
    exact ⟨text, code, read_cleared_outputPath.mp hread, by rw [hknowing], hcontent rfl, rfl, rfl⟩
  unusable_iff := (h.verdict hidle).unusable_iff
  uncompilable_iff := (h.verdict hidle).uncompilable_iff
  unusable := by
    rintro fault rfl
    refine ⟨h.cleared ?_, ?_⟩
    · intro fault' hsame
      injection hsame with hpath _
      exact outputPath_ne input hpath.symm
    · rcases h.session_eq with ⟨rfl, _⟩ | ⟨_, _, hother⟩
      · rfl
      · exact absurd rfl (hother fault)
  uncompilable := by
    rintro error rfl
    refine ⟨h.cleared ?_, fun _ => h.contains⟩
    intro fault hsame
    cases hsame

end Compiled

end Build

open Build FileTree

/-- **Compiling a file touches its output alone.** Whatever the file tree, the macros that a session has come
    to know and the path of a program, compiling the program ends with an outcome, and

    * the output is another file than the program, and everything else in the tree stays as it is, folders
      included;
    * a report is given only if the program is a file with a text that compiles with the macros known; the
      output then holds the code and nothing else, and the report counts its bytes;
    * if the program cannot be read or is no text, or if it does not compile, there is no file at the output,
      unless there was one and the system failed to remove it, and then the tree is as before; in the first
      case the macros are those of before, and in the second no name of a macro is lost.

    The session afterwards is again one that steps lead to, so that this is said of every file of a run. -/
theorem output_alone_is_touched (t : FileTree) (session : Session) (input : Path)
    (hsession : session.Reachable) :
    ∃ outcome session' t',
      (compileFile session input : StateM FileTree _) t = ((outcome, session'), t')
        ∧ Effect t session input outcome session' t' ∧ session'.Reachable := by
  obtain ⟨outcome, session', t', hrun, hcompiled⟩ := compileFile_compiled session input t
  refine ⟨outcome, session', t', hrun, hcompiled.effect hsession.idle, ?_⟩
  rcases hcompiled.session_eq with ⟨rfl, _⟩ | ⟨source, rfl, _⟩
  · exact hsession
  · exact (hsession.perform (.setSource source)).perform .compile

/-- A program that defines a macro and then fails, with an old output beside it, in a session that knows a
    macro from before. -/
theorem output_alone_is_touched_stale :
    let t : FileTree := {
      entries := [([], .folder), (["w"], .folder),
        (["w", "b.lisp"], .file "(macro same (z) z) (if)".toUTF8), (["w", "b.js"], .file "old".toUTF8)]
      home := [] }
    let session := (Session.ofText "(macro twice (x) (list + x x))").after [.compile]
    session.Reachable ∧ session.registry.contains "twice" = true ∧ t.kindOf "/w/b.js" = .ok .file
      ∧ ∃ error session' t',
        (compileFile session "/w/b.lisp" : StateM FileTree _) t
            = ((.error (.uncompilable "/w/b.lisp" error), session'), t')
          ∧ t'.kindOf "/w/b.js" ≠ .ok .file ∧ t'.get? ["w", "b.lisp"] = t.get? ["w", "b.lisp"]
          ∧ session'.registry.contains "twice" = true := by
  intro t session
  have hsession : session.Reachable := ⟨_, _, rfl⟩
  have hknown : session.registry.contains "twice" = true := by decide +kernel
  have hread : t.read "/w/b.lisp" = .ok "(macro same (z) z) (if)".toUTF8 :=
    ok_of_toOption (by decide +kernel)
  have hfails : (Session.compileKnowing session.registry "(macro same (z) z) (if)").1.toOption = none := by
    decide +kernel
  obtain ⟨error, herror⟩ := error_of_toOption hfails
  have hoff : ¬ t.LeadsTo (outputPath "/w/b.lisp") ["w", "b.lisp"] := by decide +kernel
  have houtput : outputPath "/w/b.lisp" = "/w/b.js" := by decide +kernel
  have hremoved : (t.remove "/w/b.js").toOption.isSome = true := by decide +kernel
  obtain ⟨outcome, session', t', hrun, heffect, _⟩ := output_alone_is_touched t session "/w/b.lisp" hsession
  obtain rfl := (heffect.uncompilable_iff error).mpr ⟨_, hread, herror⟩
  obtain ⟨hcleared, hnames⟩ := heffect.uncompilable error rfl
  rw [houtput] at hcleared
  refine ⟨hsession, hknown, by decide +kernel, error, session', t', hrun, ?_, heffect.elsewhere _ hoff,
    hnames _ hknown⟩
  intro hfile
  obtain ⟨_, fault, hfault⟩ := hcleared.file_iff.mp hfile
  rw [hfault] at hremoved
  cases hremoved

/-- A program that does not compile, and whose output cannot be removed, leaves the tree as it is. -/
theorem unremovable_output_stays {t : FileTree} {session : Session} {input : Path} {text : String}
    {error : CompileError} {fault : FileFault} (hidle : session.Idle)
    (hread : t.read input = .ok text.toUTF8)
    (hfails : (Session.compileKnowing session.registry text).1 = .error error)
    (hremove : t.remove (outputPath input) = .error fault) :
    ∃ session', (compileFile session input : StateM FileTree _) t
      = ((.error (.uncompilable input error), session'), t) := by
  obtain ⟨outcome, session', t', hrun, hcompiled⟩ := compileFile_compiled session input t
  have heffect := hcompiled.effect hidle
  obtain rfl := (heffect.uncompilable_iff error).mpr ⟨text, hread, hfails⟩
  obtain ⟨hcleared, _⟩ := heffect.uncompilable error rfl
  obtain rfl := hcleared.unchanged fault hremove
  exact ⟨session', hrun⟩

/-- An output cannot be removed whose path is too long for the system, while that of the program, which stays
    in the working folder for a while, is just short enough. -/
theorem overlong_output_stays {t : FileTree} {session : Session} {bs : List UInt8} {text : String}
    {error : CompileError} (hidle : session.Idle) (hread : t.read ⟨bs⟩ = .ok text.toUTF8)
    (hfails : (Session.compileKnowing session.registry text).1 = .error error)
    (hrelative : bs.head? ≠ some slash) (hstay : t.stepTo t.home ⟨[dot]⟩ = .ok t.home) {n : Nat}
    (hoff : ¬ (ByteString.ofText sourceSuffix).bytes <:+ idle n ++ bs)
    (hfits : 2 * n + bs.length ≤ maxPathBytes) (hlong : maxPathBytes < 2 * n + bs.length + 3) :
    ∃ session', (compileFile session ⟨idle n ++ bs⟩ : StateM FileTree _) t
      = ((.error (.uncompilable ⟨idle n ++ bs⟩ error), session'), t) := by
  obtain ⟨l, refuses, hleads, hfile, hallowed⟩ := read_eq_ok_iff.mp hread
  have hstays : t.LeadsTo ⟨idle n ++ bs⟩ l := hleads.idle hrelative hstay hfits
  have hzero : 0 ∉ idle n ++ bs := (leadsTo_iff_walk.mp hstays).1
  have hbytes : (outputPath ⟨idle n ++ bs⟩).bytes = idle n ++ bs ++ (ByteString.ofText targetSuffix).bytes :=
    congrArg ByteString.bytes (outputPath_of_not_suffix hoff)
  refine unremovable_output_stays hidle ?_ hfails (remove_of_long ?_ ?_)
  · exact read_eq_ok_iff.mpr ⟨l, refuses, hstays, hfile, hallowed⟩
  · rw [hbytes, List.mem_append]
    rintro (hmem | hmem)
    · exact hzero hmem
    · exact absurd hmem (by decide +kernel)
  · have hthree : (ByteString.ofText targetSuffix).bytes.length = 3 := by decide +kernel
    rw [hbytes, List.length_append, List.length_append, idle_length, hthree]
    exact hlong

/-- **An old output can survive a failure.** The program `)` does not compile. In the first tree its old
    output cannot be removed. In the second the path of the output is too long to be used, although its names
    lead to a file. Both trees are afterwards as they were. -/
theorem stale_output_survives :
    let kept : Entry := ⟨.file "old".toUTF8, fun access =>
      if access = .remove then some (.refused "Permission denied (os error 13)") else none⟩
    let t : FileTree := {
      entries := [([], .folder), (["w"], .folder), (["w", "b.lisp"], .file ")".toUTF8), (["w", "b.js"], kept)]
      home := ["w"] }
    let u : FileTree := {
      entries := [([], .folder), (["w"], .folder), (["w", "b"], .file ")".toUTF8),
        (["w", "b.js"], .file "old".toUTF8)]
      home := ["w"] }
    let long : Path := ⟨idle 2046 ++ (ByteString.ofText "b").bytes⟩
    (t.kindOf (outputPath "b.lisp") = .ok .file
        ∧ ∃ error session', (compileFile (.ofText "") "b.lisp" : StateM FileTree _) t
          = ((.error (.uncompilable "b.lisp" error), session'), t))
      ∧ (namesOf (outputPath long)).foldlM u.stepTo (u.beginning (outputPath long)) = .ok ["w", "b.js"]
        ∧ u.kindOf "b.js" = .ok .file
        ∧ ∃ error session', (compileFile (.ofText "") long : StateM FileTree _) u
          = ((.error (.uncompilable long error), session'), u) := by
  intro kept t u long
  have hoff : ¬ (ByteString.ofText sourceSuffix).bytes <:+ long.bytes := by
    rintro ⟨front, hfront⟩
    have hsource : (ByteString.ofText sourceSuffix).bytes.getLast? = some 0x70 := by decide +kernel
    have hname : (ByteString.ofText "b").bytes.getLast? = some 0x62 := by decide +kernel
    have hlast := congrArg List.getLast? hfront
    rw [List.getLast?_append, List.getLast?_append, hsource, hname] at hlast
    exact absurd hlast (show (some 0x70 : Option UInt8) ≠ some 0x62 by decide)
  have houtput : outputPath long = ⟨idle 2046 ++ (ByteString.ofText "b.js").bytes⟩ := by
    rw [outputPath_of_not_suffix hoff, List.append_assoc]
    rfl
  have hstay : u.stepTo u.home ⟨[dot]⟩ = .ok u.home := ok_of_toOption (by decide +kernel)
  have hfails : (Session.compileKnowing .empty ")").1.toOption = none := by decide +kernel
  have hremove : (t.remove (outputPath "b.lisp")).toOption.isNone = true := by decide +kernel
  obtain ⟨error, herror⟩ := error_of_toOption hfails
  obtain ⟨fault, hfault⟩ := error_of_toOption (Option.isNone_iff_eq_none.mp hremove)
  have hidle := Session.ofSource_idle (.ofText "".toList)
  refine ⟨⟨by decide +kernel, error, ?_⟩, ?_, by decide +kernel, error, ?_⟩
  · exact unremovable_output_stays hidle (ok_of_toOption (by decide +kernel)) herror hfault
  · have hhome : u.beginning (outputPath long) = u.home := by rw [houtput]; rfl
    rw [hhome, houtput, walk_idle hstay]
    exact ok_of_toOption (by decide +kernel)
  · have hread : u.read ⟨(ByteString.ofText "b").bytes⟩ = .ok ")".toUTF8 :=
      ok_of_toOption (by decide +kernel)
    exact overlong_output_stays hidle hread herror (by decide +kernel) hstay hoff (by decide +kernel)
      (by decide +kernel)

end FormScript
