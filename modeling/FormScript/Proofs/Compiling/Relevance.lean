import FormScript.Proofs.Compiling.Histories
import FormScript.Proofs.Lowering.Coupling
import FormScript.Proofs.Lowering.Promises
import FormScript.Proofs.Macro.Vocabulary

/-!
# Which macros matter

Lowering an expression looks up the names in it, and the names in the bodies of the macros it expands.
These are the `Relevant` names, with `true`, `false` and `null`, which expansions can make up. Two
registries that agree on the relevant names cannot be told apart by lowering the expression, and what it
defines has relevant names (`irrelevant_macros_immaterial`).
-/

namespace FormScript

/-- The names that lowering `e` can come across, with the macros of `r` to begin with. -/
inductive Relevant (r : Registry) (e : Sexp) : String → Prop where
  | occurs {name : String} : name ∈ e.symbols → Relevant r e name
  | yes : Relevant r e "true"
  | no : Relevant r e "false"
  | null : Relevant r e "null"
  | body {name other : String} {m : Macro} {b : Sexp} : Relevant r e name → r.get? name = some m →
      b ∈ m.body → other ∈ b.symbols → Relevant r e other

theorem Relevant.vocabulary (r : Registry) (e : Sexp) : Vocabulary (Relevant r e) :=
  ⟨.yes, .no, .null⟩

/-- The macros of the names in a set speak of names in the set. -/
def Registry.ClosedOn (S : String → Prop) (r : Registry) : Prop :=
  ∀ name m, S name → r.get? name = some m → ∀ b ∈ m.body, b.Within S

theorem Relevant.closedOn (r : Registry) (e : Sexp) : r.ClosedOn (Relevant r e) :=
  fun _ _ hname hget _ hb _ hother => .body hname hget hb hother

/-- The macros of the two runs agree on the names of a set that is closed under them; on other names they
    are as they were at the beginning. -/
def agreement (S : String → Prop) (r₁ r₂ : Registry) : Coupling where
  admits := Sexp.Within S
  alike r r' := r.ClosedOn S ∧ (∀ name, S name → r.get? name = r'.get? name)
    ∧ ∀ name, ¬ S name → r.get? name = r₁.get? name ∧ r'.get? name = r₂.get? name
  excuses _ := False
  tolerates _ := True

/-- A macro defined from names in the set keeps the set closed. -/
theorem Registry.ClosedOn.define {S : String → Prop} {r : Registry} (h : r.ClosedOn S) {m : Macro}
    (hm : m.DefinedFrom (Sexp.Within S)) : (r.define m).ClosedOn S := by
  intro name n hname hget
  by_cases hsame : m.name = name
  · subst hsame
    rw [get?_define_self] at hget
    cases hget
    exact hm.body
  · rw [get?_define_of_ne r hsame] at hget
    exact h name n hname hget

/-- The name that an expression calls is one of its symbols. -/
theorem Registry.callOf?_congr {S : String → Prop} {r r' : Registry} {e : Sexp}
    (h : ∀ name, S name → r.get? name = r'.get? name) (he : e.Within S) : r.callOf? e = r'.callOf? e := by
  unfold Registry.callOf?
  split
  · rename_i name args
    have hname : S name := Sexp.within_symbol.mp (Sexp.within_group.mp he _ List.mem_cons_self)
    rw [h name hname]
  · rfl

theorem agreement_sound {S : String → Prop} (hS : Vocabulary S) (r₁ r₂ : Registry) :
    (agreement S r₁ r₂).Sound where
  hereditary := fun _ _ h => Sexp.within_group.mp h
  define := by
    rintro r r' m ⟨hclosed, hagree, hrest⟩ hm
    refine ⟨hclosed.define hm, ?_, ?_⟩
    · intro name hname
      rw [Registry.get?_define, Registry.get?_define, hagree name hname]
    · intro name hname
      -- the defined name is in the set, and this one is not
      have hne : m.name ≠ name := by
        rintro rfl
        exact hname (Sexp.within_symbol.mp hm.name)
      rw [r.get?_define_of_ne hne, r'.get?_define_of_ne hne]
      exact hrest name hname
  call := by
    rintro r r' e ⟨_, hagree, _⟩ he
    exact Registry.callOf?_congr hagree he
  expansion := by
    rintro r r' e m args ⟨hclosed, _, _⟩ he hcall
    refine ⟨?_, fun _ _ => trivial⟩
    intro expanded hexpand
    obtain ⟨name, rfl, hget⟩ := Registry.callOf?_eq_some_iff.mp hcall
    obtain ⟨hname, hargs⟩ := List.forall_mem_cons.mp (Sexp.within_group.mp he)
    have hbody := hclosed name m (Sexp.within_symbol.mp hname) hget
    exact Macro.expand_within hS hbody hargs hexpand

/-- The session with other macros. -/
def Session.withRegistry (s : Session) (r : Registry) : Session :=
  { s with state := { s.state with registry := r } }

/-- Of a session, lowering an expression changes the macros alone. -/
theorem Session.lower_withRegistry (s : Session) (r : Registry) (e : Sexp) :
    (s.withRegistry r).lower e
      = (s.report (e.lowered (s.withRegistry r).state).1,
        s.withRegistry (e.lowered (s.withRegistry r).state).2.registry) := by
  rw [lower_eq, e.lowered_steady.state_eq]
  rfl

/-- **Irrelevant macros do not matter.** Let two sessions differ in their macros only, and let these agree
    on every name that is relevant to an expression. Then lowering the expression has the same outcome in
    both, and leaves them differing in their macros only. These still agree on the relevant names, and the
    other names stand for what they stood for. -/
theorem irrelevant_macros_immaterial (s : Session) (e : Sexp) (r₁ r₂ : Registry)
    (h : ∀ name, Relevant r₁ e name → r₁.get? name = r₂.get? name) :
    ∃ outcome r₁' r₂', (s.withRegistry r₁).lower e = (outcome, s.withRegistry r₁')
      ∧ (s.withRegistry r₂).lower e = (outcome, s.withRegistry r₂')
      ∧ (∀ name, Relevant r₁ e name → r₁'.get? name = r₂'.get? name)
      ∧ ∀ name, ¬ Relevant r₁ e name →
        r₁'.get? name = r₁.get? name ∧ r₂'.get? name = r₂.get? name := by
  have hsound := agreement_sound (Relevant.vocabulary r₁ e) r₁ r₂
  have halike : (agreement (Relevant r₁ e) r₁ r₂).alike r₁ r₂ :=
    ⟨Relevant.closedOn r₁ e, h, fun _ _ => ⟨rfl, rfl⟩⟩
  have hadmits : e.Within (Relevant r₁ e) := fun _ hname => .occurs hname
  have hmeets := hsound.lowered hadmits (s := (s.withRegistry r₁).state)
    (t := (s.withRegistry r₂).state) ⟨halike, .inl rfl⟩ (.inl rfl)
  rcases hmeets with ⟨_, _, hexcused⟩ | ⟨hsame, _, ⟨_, hagree, hrest⟩, _⟩
  · exact hexcused.elim
  · refine ⟨_, _, _, s.lower_withRegistry r₁ e, ?_, hagree, hrest⟩
    rw [s.lower_withRegistry r₂ e, hsame]

/-- A macro that calls its second argument with its first, and one of another name. -/
def applied : Macro := ⟨"on", ["x", "f"], [.group .round [.symbol "f", .symbol "x"]]⟩

def unrelated : Macro := ⟨"twice", ["x"], [.group .round [.symbol "on", .symbol "x", .symbol "x"]]⟩

/-- The expression `(block (macro same (z) z) (on y g))`. -/
def definingCall : Sexp :=
  .group .round [.symbol "block",
    .group .round [.symbol "macro", .symbol "same", .group .round [.symbol "z"], .symbol "z"],
    .group .round [.symbol "on", .symbol "y", .symbol "g"]]

theorem not_relevant_unrelated {name : String} (h : Relevant ⟨[applied, unrelated]⟩ definingCall name) :
    name ≠ "twice" := by
  induction h with
  | occurs hname =>
    rintro rfl
    revert hname
    decide
  | yes => decide
  | no => decide
  | null => decide
  | @body name other m b _ hget hb hother ih =>
    -- the only macro that is reached has the names `f` and `x` in its body
    have hm : m = applied := by
      have hname := Registry.name_of_get? hget
      have hmem := Registry.mem_of_get? hget
      simp only [List.mem_cons, List.not_mem_nil, or_false] at hmem
      rcases hmem with rfl | rfl
      · rfl
      · exact absurd hname.symm ih
    subst hm
    rintro rfl
    have hb : b = .group .round [.symbol "f", .symbol "x"] := List.mem_singleton.mp hb
    subst hb
    revert hother
    decide

/-- With or without the other macro the expression is lowered alike, and its definition is kept. -/
theorem irrelevant_macros_immaterial_call :
    let s := Session.ofText ""
    (∀ name, Relevant ⟨[applied, unrelated]⟩ definingCall name →
        Registry.get? ⟨[applied, unrelated]⟩ name = Registry.get? ⟨[applied]⟩ name)
      ∧ ∃ r₁ r₂, (s.withRegistry ⟨[applied, unrelated]⟩).lower definingCall
          = (.ok "\x7b(g(y))\x7d", s.withRegistry r₁)
        ∧ (s.withRegistry ⟨[applied]⟩).lower definingCall
          = (.ok "\x7b(g(y))\x7d", s.withRegistry r₂)
        ∧ r₁.get? "same" = r₂.get? "same" := by
  intro s
  have hagree : ∀ name, Relevant ⟨[applied, unrelated]⟩ definingCall name →
      Registry.get? ⟨[applied, unrelated]⟩ name = Registry.get? ⟨[applied]⟩ name := by
    intro name hname
    have hne : unrelated.name ≠ name := (not_relevant_unrelated hname).symm
    simp [Registry.get?, List.find?_cons, hne]
  obtain ⟨outcome, r₁, r₂, hfirst, hsecond, hsame, _⟩ :=
    irrelevant_macros_immaterial s definingCall _ _ hagree
  have hok : ((s.withRegistry ⟨[applied, unrelated]⟩).lower definingCall).1 = .ok "\x7b(g(y))\x7d" :=
    ok_of_toOption (by decide +kernel)
  have houtcome : outcome = .ok "\x7b(g(y))\x7d" := by
    rw [hfirst] at hok
    exact hok
  subst houtcome
  refine ⟨hagree, r₁, r₂, hfirst, hsecond, hsame "same" (.occurs ?_)⟩
  decide

end FormScript
