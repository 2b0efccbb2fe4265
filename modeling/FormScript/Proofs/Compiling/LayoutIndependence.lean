import FormScript.Proofs.Compiling.Items
import FormScript.Proofs.Reading.Rendering

/-!
# Layout independence

Gaps carry no meaning. All renderings of one forest read as its expressions, and they compile alike.
-/

namespace FormScript

/-- **Layout does not matter.** A rendering of a forest is read without a failure as the expressions of
    the forest, in order. Two renderings of it compile to the same text and leave the same macros, or
    fail for the same cause; the place of the failure is all that may differ. -/
theorem layout_independence {forest : List Tree} (hdepth : Tree.depths forest ≤ maxNesting)
    {text text' : String} (h : Tree.Renders forest text.toList)
    (h' : Tree.Renders forest text'.toList) :
    (Reader.ofText text).readAll.expressions = Tree.values forest
      ∧ (Reader.ofText text).readAll.error = none
      ∧ (Session.ofText text).compile.1.mapError CompileError.cause
        = (Session.ofText text').compile.1.mapError CompileError.cause
      ∧ (Session.ofText text).compile.2.registry = (Session.ofText text').compile.2.registry := by
  have hread : ∀ {t : String}, Tree.Renders forest t.toList →
      (Reader.ofText t).readAll.expressions = Tree.values forest
        ∧ (Reader.ofText t).readAll.error = none := by
    intro t ht
    obtain ⟨hitems, _, herror⟩ := Reader.readAll_ofText t
    obtain ⟨hvalues, hfault⟩ := Tree.scan_renders hdepth ht
    rw [hfault] at herror
    exact ⟨by rw [Program.expressions, hitems]; exact hvalues, herror⟩
  obtain ⟨hvalues, herror⟩ := hread h
  obtain ⟨hvalues', herror'⟩ := hread h'
  obtain ⟨hcompile, hstate⟩ :=
    Session.compileFrom_congr (hvalues.trans hvalues'.symm) herror herror' .initial .start ""
  exact ⟨hvalues, herror, hcompile, congrArg Lowering.State.registry hstate⟩

/-- The word `f`. -/
def Spelling.word : Spelling where
  text := "f"
  item := ⟨.symbol "f", ⟨0, 1, 1⟩, ⟨1, 1, 2⟩⟩
  reads := by with_unfolding_all rfl
  no_error := by decide +kernel
  start_eq := rfl
  stop_eq := by decide
  not_group := rfl
  not_line := by decide
  not_column := by decide

/-- The regular expression `/x/g`. -/
def Spelling.regex : Spelling where
  text := "/x/g"
  item := ⟨.regex "x" "g", ⟨0, 1, 1⟩, ⟨4, 1, 5⟩⟩
  reads := by with_unfolding_all rfl
  no_error := by decide +kernel
  start_eq := rfl
  stop_eq := by decide
  not_group := rfl
  not_line := by decide
  not_column := by decide

/-- The call `(f /x/g)` with any gaps in it. -/
theorem renders_call {lead inside between before : List Char} (hlead : Gap lead)
    (hinside : Gap inside) (hbetween : Gap between) (hne : between ≠ []) (hbefore : Gap before) :
    Tree.Renders [.group .round [.atom .word, .atom .regex]]
      (lead ++ '(' :: (inside ++ ('f' :: (between ++ (['/', 'x', '/', 'g'] ++ before)) ++ [')']))) := by
  have hregex : Tree.WrittenAll [.atom .regex] (['/', 'x', '/', 'g'] ++ before) :=
    ⟨['/', 'x', '/', 'g'], before, [], rfl, hbefore, fun _ => rfl, rfl, by simp⟩
  have hwords : Tree.WrittenAll [.atom .word, .atom .regex]
      ('f' :: (between ++ (['/', 'x', '/', 'g'] ++ before))) :=
    ⟨['f'], between, _, rfl, hbetween, fun hnil => absurd hnil hne, hregex, rfl⟩
  have hgroup : Tree.Written (.group .round [.atom .word, .atom .regex])
      ('(' :: (inside ++ ('f' :: (between ++ (['/', 'x', '/', 'g'] ++ before)) ++ [')']))) :=
    ⟨inside, _, hinside, hwords, rfl⟩
  exact ⟨lead, _, hlead, ⟨_, [], [], hgroup, .nil, fun _ => rfl, rfl, (List.append_nil _).symm⟩, rfl⟩

/-- The call on one line and on three. -/
theorem layout_independence_call :
    (Reader.ofText "(f /x/g)").readAll.expressions
        = [.group .round [.symbol "f", .regex "x" "g"]]
      ∧ (Session.ofText "(f /x/g)").compile.1.mapError CompileError.cause
        = (Session.ofText "; call\n( f\t;k\n/x/g )").compile.1.mapError CompileError.cause := by
  have hdepth : Tree.depths [.group .round [.atom .word, .atom .regex]] ≤ maxNesting := by decide
  have hspace : Gap [' '] := .blank (by decide) .nil
  have hnote : Gap "; call\n".toList :=
    .comment (show '\n' ∉ " call".toList by decide) .nil
  have hcomment : Gap "\t;k\n".toList :=
    .blank (by decide) (.comment (show '\n' ∉ ['k'] by decide) .nil)
  have hline : Tree.Renders _ "(f /x/g)".toList :=
    renders_call .nil .nil hspace (by simp) .nil
  have hlines : Tree.Renders _ "; call\n( f\t;k\n/x/g )".toList :=
    renders_call hnote hspace hcomment (by decide) hspace
  obtain ⟨hvalues, _, hcompile, _⟩ := layout_independence hdepth hline hlines
  exact ⟨hvalues, hcompile⟩

end FormScript
