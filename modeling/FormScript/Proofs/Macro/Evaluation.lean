import FormScript.Macro.Evaluation

/-!
# What a step of evaluation can do

Evaluation of an expression asks for the values of its parts and goes by them. `Sexp.Evaluates` lists
everything that can come of it: a part may fail, a group may be rebuilt from the values of its parts, an
operator may be carried out, and a special form has rules of its own (`Special.Gives`). Every evaluation
follows one of these rules (`Sexp.eval_evaluates`), so that what is true of all values or of all failures is
seen by going through the rules, with an induction on the parts (`Sexp.byParts`).
-/

namespace FormScript

theorem ok_bind {ε α β : Type} (a : α) (f : α → Except ε β) : ((.ok a : Except ε α) >>= f) = f a := rfl

namespace Sexp

/-! ## Parts of an expression -/

/-- The elements of a group; an atom has no parts. -/
def parts (e : Sexp) : List Sexp := e.elements?.getD []

/-- What an expression has if all its parts have it, every expression has. -/
theorem byParts {motive : Sexp → Prop} (step : ∀ e, (∀ part ∈ e.parts, motive part) → motive e)
    (e : Sexp) : motive e := by
  apply step
  intro part hpart
  exact byParts step part
termination_by sizeOf e
decreasing_by
  cases e with
  | group bracket items =>
    have hsmaller : sizeOf part < sizeOf items := List.sizeOf_lt_of_mem hpart
    simp only [group.sizeOf_spec]
    omega
  | number x => cases hpart
  | symbol name => cases hpart
  | string content => cases hpart
  | regex pattern flags => cases hpart

/-! ## Computations in sequence -/

/-- A computation that succeeds does so in its first step and in the rest of it. -/
theorem ok_of_bind {ε α β : Type} {x : Except ε α} {f : α → Except ε β} {b : β}
    (h : (x >>= f) = .ok b) : ∃ a, x = .ok a ∧ f a = .ok b := by
  cases x with
  | error error => cases h
  | ok a => exact ⟨a, rfl, h⟩

/-- A computation that fails does so in its first step or in the rest of it. -/
theorem error_of_bind {ε α β : Type} {x : Except ε α} {f : α → Except ε β} {error : ε}
    (h : (x >>= f) = .error error) : x = .error error ∨ ∃ a, x = .ok a ∧ f a = .error error := by
  cases x with
  | error first =>
    cases h
    exact .inl rfl
  | ok a => exact .inr ⟨a, rfl, h⟩

variable {env : Bindings}

/-- The values of several expressions are values of each of them. -/
theorem mem_of_evalAll {es values : List Sexp} (h : evalAll env es = .ok values) :
    ∀ value ∈ values, ∃ e ∈ es, e.eval env = .ok value := by
  induction es generalizing values with
  | nil =>
    cases h
    simp
  | cons e es ih =>
    rw [evalAll] at h
    obtain ⟨value, hvalue, h⟩ := ok_of_bind h
    obtain ⟨rest, hrest, h⟩ := ok_of_bind h
    cases h
    refine List.forall_mem_cons.mpr ⟨⟨e, List.mem_cons_self, hvalue⟩, ?_⟩
    intro other hother
    obtain ⟨e', he', heval⟩ := ih hrest other hother
    exact ⟨e', List.mem_cons_of_mem e he', heval⟩

/-- Where the values of several expressions cannot be had, one of them fails. -/
theorem error_of_evalAll {es : List Sexp} {error : ExpandError} (h : evalAll env es = .error error) :
    ∃ e ∈ es, e.eval env = .error error := by
  induction es with
  | nil => cases h
  | cons e es ih =>
    rw [evalAll] at h
    rcases error_of_bind h with hfirst | ⟨value, _, h⟩
    · exact ⟨e, List.mem_cons_self, hfirst⟩
    · rcases error_of_bind h with hrest | ⟨rest, _, h⟩
      · obtain ⟨e', he', heval⟩ := ih hrest
        exact ⟨e', List.mem_cons_of_mem e he', heval⟩
      · cases h

/-! ## Forms by their heads -/

theorem eval_of_bound {name : String} {value : Sexp} (hget : env.get? name = some value)
    (operands : List Sexp) :
    eval env (.group .round (.symbol name :: operands))
      = (evalAll env operands >>= fun values => pure (.group .round (value :: values))) := by
  rw [eval, hget]

theorem eval_of_ordinary {name : String} (hget : env.get? name = none)
    (hform : Special.ofName? name = none) (operands : List Sexp) :
    eval env (.group .round (.symbol name :: operands))
      = (evalAll env operands >>= fun values =>
          pure ((Constant.fold? name values).getD (.group .round (.symbol name :: values)))) := by
  rw [eval, hget, hform]

theorem eval_of_special {name : String} {form : Special} (hget : env.get? name = none)
    (hform : Special.ofName? name = some form) (hfail : form ≠ .fail) (hlist : form ≠ .list)
    (operands : List Sexp) :
    eval env (.group .round (.symbol name :: operands)) = evalSpecial env form operands := by
  rw [eval, hget, hform]
  cases form with
  | fail => exact absurd rfl hfail
  | list => exact absurd rfl hlist
  | _ => rfl

theorem name_of_special {name : String} {form : Special} (h : Special.ofName? name = some form) :
    form.name = name := by
  have hname := List.find?_some h
  exact of_decide_eq_true hname

/-- A special form has too few operands or too many. -/
def Miscounted : Special → Nat → Prop
  | .quote, _ => False
  | .fail, _ => False
  | .list, _ => False
  | .choose, n => n < 2 ∨ 3 < n
  | .nth, n => n < 2 ∨ 2 < n
  | _, n => n < 1 ∨ 1 < n

theorem evalSpecial_of_miscounted {form : Special} {operands : List Sexp}
    (h : Miscounted form operands.length) :
    evalSpecial env form operands = .error (.operandCount form operands.length) := by
  cases form with
  | quote | fail | list => cases h
  | choose =>
    rcases operands with _ | ⟨condition, _ | ⟨yes, _ | ⟨no, _ | ⟨extra, rest⟩⟩⟩⟩
    · rfl
    · rfl
    · simp [Miscounted] at h
    · simp [Miscounted] at h
    · rfl
  | nth =>
    rcases operands with _ | ⟨e, _ | ⟨index, _ | ⟨extra, rest⟩⟩⟩
    · rfl
    · rfl
    · simp [Miscounted] at h
    · rfl
  | isSymbol | isNumber | isString | isForm | count | first | rest =>
    rcases operands with _ | ⟨e, _ | ⟨extra, rest⟩⟩
    · rfl
    · simp [Miscounted] at h
    · rfl

end Sexp

/-! ## Special forms -/

namespace Special

open Sexp

/-- What a form that tests its operand says of a value. -/
def test? : Special → Sexp → Option Bool
  | .isSymbol, value => some value.isSymbol
  | .isNumber, value => some value.isNumber
  | .isString, value => some value.isString
  | .isForm, value => some value.elements?.isSome
  | _, _ => none

/-- Everything a special form can give for its operands. -/
inductive Gives (env : Bindings) : Special → List Sexp → Except ExpandError Sexp → Prop where
  -- forms that take any number of operands
  | quoted {e : Sexp} : Gives env .quote [e] (.ok e)
  | quotedAll {es : List Sexp} : es.length ≠ 1 → Gives env .quote es (.ok (.group .round es))
  | listed {es values : List Sexp} : evalAll env es = .ok values →
      Gives env .list es (.ok (.group .round values))
  | rejected {es values : List Sexp} : evalAll env es = .ok values →
      Gives env .fail es (.error (.rejected (" ".intercalate (values.map reasonText))))
  -- a choice fails or not as the branch does that it picks
  | yes {condition value yes : Sexp} {no : List Sexp} {result : Except ExpandError Sexp} :
      no.length ≤ 1 → condition.eval env = .ok value → value.truth? = some true →
      yes.eval env = result → Gives env .choose (condition :: yes :: no) result
  | no {condition value yes no : Sexp} {result : Except ExpandError Sexp} :
      condition.eval env = .ok value → value.truth? = some false → no.eval env = result →
      Gives env .choose [condition, yes, no] result
  | null {condition value yes : Sexp} : condition.eval env = .ok value → value.truth? = some false →
      Gives env .choose [condition, yes] (.ok (.symbol "null"))
  | undecided {value : Sexp} {es values : List Sexp} : ¬ Miscounted .choose es.length →
      evalAll env es = .ok (value :: values) → value.truth? = none →
      Gives env .choose es (.ok (.group .round (.symbol "if" :: value :: values)))
  -- tests of a value and parts of it
  | tested {form : Special} {e value : Sexp} {b : Bool} : e.eval env = .ok value →
      form.test? value = some b → Gives env form [e] (.ok (.ofBool b))
  | counted {e value : Sexp} {items : List Sexp} : e.eval env = .ok value →
      value.elements? = some items → Gives env .count [e] (.ok (.number (.ofNat items.length)))
  | nth {e value index i item : Sexp} {items : List Sexp} {n : Nat} : e.eval env = .ok value →
      value.elements? = some items → index.eval env = .ok i → indexFor .nth i = .ok n →
      items[n]? = some item → Gives env .nth [e, index] (.ok item)
  | first {e value item : Sexp} {items : List Sexp} : e.eval env = .ok value →
      value.elements? = some items → items[0]? = some item → Gives env .first [e] (.ok item)
  | rest {e value : Sexp} {items : List Sexp} : e.eval env = .ok value →
      value.elements? = some items → Gives env .rest [e] (.ok (value.regroup items.tail))
  -- failures, of an operand or of the form itself
  | operandFails {form : Special} {es : List Sexp} {e : Sexp} {error : ExpandError} : e ∈ es →
      e.eval env = .error error → Gives env form es (.error error)
  | notGroup {form : Special} {e value : Sexp} {more : List Sexp} :
      form ∈ [Special.count, .nth, .first, .rest] → e.eval env = .ok value → value.elements? = none →
      Gives env form (e :: more) (.error (.notGroup form value))
  | notWhole {e index i : Sexp} : index.eval env = .ok i → (∀ n, indexFor .nth i ≠ .ok n) →
      Gives env .nth [e, index] (.error (.notWhole .nth i))
  | outOfRange {form : Special} {e value : Sexp} {more items : List Sexp} {n : Nat} :
      form ∈ [Special.nth, .first] → e.eval env = .ok value → value.elements? = some items →
      items[n]? = none → Gives env form (e :: more) (.error (.outOfRange form n value))
  | miscounted {form : Special} {es : List Sexp} : Miscounted form es.length →
      Gives env form es (.error (.operandCount form es.length))

variable {env : Bindings}

theorem elementsFor_of_some {form : Special} {value : Sexp} {items : List Sexp}
    (h : value.elements? = some items) : elementsFor form value = .ok items := by
  rw [elementsFor, h]

theorem elementsFor_of_none {form : Special} {value : Sexp} (h : value.elements? = none) :
    elementsFor form value = .error (.notGroup form value) := by
  rw [elementsFor, h]

theorem indexFor_eq_error {form : Special} {i : Sexp} {error : ExpandError}
    (h : indexFor form i = .error error) : error = .notWhole form i := by
  unfold indexFor at h
  split at h
  · split at h
    · cases h
    · cases h
      rfl
  · cases h
    rfl

/-- A form that begins with the value of its first operand. -/
theorem gives_of_first {form : Special} {e : Sexp} {more : List Sexp} {f : Sexp → Except ExpandError Sexp}
    (h : ∀ value, e.eval env = .ok value → Gives env form (e :: more) (f value)) :
    Gives env form (e :: more) (e.eval env >>= f) := by
  cases hvalue : e.eval env with
  | error error => exact .operandFails List.mem_cons_self hvalue
  | ok value => exact h value hvalue

/-- A form that then takes this value apart. -/
theorem gives_of_elements {form : Special} (hform : form ∈ [Special.count, .nth, .first, .rest])
    {e : Sexp} {more : List Sexp} {f : Sexp → List Sexp → Except ExpandError Sexp}
    (h : ∀ value items, e.eval env = .ok value → value.elements? = some items →
      Gives env form (e :: more) (f value items)) :
    Gives env form (e :: more) (e.eval env >>= fun value => elementsFor form value >>= f value) := by
  apply gives_of_first
  intro value hvalue
  cases hitems : value.elements? with
  | none =>
    rw [elementsFor_of_none hitems]
    exact .notGroup hform hvalue hitems
  | some items =>
    rw [elementsFor_of_some hitems]
    exact h value items hvalue hitems

/-- A form that picks the element at a position, which may not be there. -/
theorem gives_elementAt {form : Special} (hform : form ∈ [Special.nth, .first]) {e value : Sexp}
    {more items : List Sexp} {n : Nat} (hvalue : e.eval env = .ok value)
    (hitems : value.elements? = some items)
    (h : ∀ item, items[n]? = some item → Gives env form (e :: more) (.ok item)) :
    Gives env form (e :: more) (elementAt form value items n) := by
  unfold elementAt
  cases hitem : items[n]? with
  | none => exact .outOfRange hform hvalue hitems hitem
  | some item => exact h item hitem

theorem gives_nth (e index : Sexp) : Gives env .nth [e, index] (evalSpecial env .nth [e, index]) := by
  rw [evalSpecial]
  apply gives_of_elements (by simp)
  intro value items hvalue hitems
  cases hi : index.eval env with
  | error error => exact .operandFails (List.mem_cons_of_mem e List.mem_cons_self) hi
  | ok i =>
    rw [ok_bind]
    cases hn : indexFor .nth i with
    | error error =>
      rw [indexFor_eq_error hn]
      refine .notWhole hi ?_
      intro n hwhole
      rw [hn] at hwhole
      cases hwhole
    | ok n =>
      apply gives_elementAt (by simp) hvalue hitems
      intro item hitem
      exact .nth hvalue hitems hi hn hitem

/-- A choice that its condition leaves open is rebuilt. -/
theorem gives_undecided {condition value : Sexp} {branches : List Sexp}
    (hcount : ¬ Miscounted .choose (condition :: branches).length) (hvalue : condition.eval env = .ok value)
    (htruth : value.truth? = none) :
    Gives env .choose (condition :: branches) (evalAll env branches >>= fun values =>
      pure (.group .round (.symbol "if" :: value :: values))) := by
  cases hvalues : evalAll env branches with
  | error error =>
    obtain ⟨e, he, heval⟩ := error_of_evalAll hvalues
    exact .operandFails (List.mem_cons_of_mem condition he) heval
  | ok values =>
    refine .undecided hcount ?_ htruth
    rw [evalAll, hvalue, hvalues]
    rfl

theorem gives_choose {es : List Sexp} (hcount : ¬ Miscounted .choose es.length) :
    Gives env .choose es (evalSpecial env .choose es) := by
  rcases es with _ | ⟨condition, _ | ⟨yes, _ | ⟨no, _ | ⟨extra, rest⟩⟩⟩⟩
  · simp [Miscounted] at hcount
  · simp [Miscounted] at hcount
  -- without and with a second branch
  · rw [evalSpecial]
    apply gives_of_first
    intro value hvalue
    cases htruth : value.truth? with
    | none =>
      have hopen := gives_undecided hcount hvalue htruth
      simpa only [evalAll, bind_assoc, pure_bind, ok_bind] using hopen
    | some truth =>
      cases truth with
      | true => exact .yes (by simp) hvalue htruth rfl
      | false => exact .null hvalue htruth
  · rw [evalSpecial]
    apply gives_of_first
    intro value hvalue
    cases htruth : value.truth? with
    | none =>
      have hopen := gives_undecided hcount hvalue htruth
      simpa only [evalAll, bind_assoc, pure_bind, ok_bind] using hopen
    | some truth =>
      cases truth with
      | true => exact .yes (by simp) hvalue htruth rfl
      | false => exact .no hvalue htruth rfl
  · simp [Miscounted] at hcount

theorem single_of_counted {es : List Sexp} (h : ¬ (es.length < 1 ∨ 1 < es.length)) : ∃ e, es = [e] :=
  List.length_eq_one_iff.mp (by omega)

/-- **Every special form follows one of its rules.** -/
theorem gives_evalSpecial {form : Special} (hfail : form ≠ .fail) (hlist : form ≠ .list) (es : List Sexp) :
    Gives env form es (evalSpecial env form es) := by
  by_cases hcount : Miscounted form es.length
  · rw [evalSpecial_of_miscounted hcount]
    exact .miscounted hcount
  · cases form with
    | fail => exact absurd rfl hfail
    | list => exact absurd rfl hlist
    | quote =>
      rcases es with _ | ⟨e, _ | ⟨other, es⟩⟩
      · exact .quotedAll (by simp)
      · exact .quoted
      · exact .quotedAll (by simp)
    | choose => exact gives_choose hcount
    | nth =>
      rcases es with _ | ⟨e, _ | ⟨index, _ | ⟨extra, rest⟩⟩⟩
      · simp [Miscounted] at hcount
      · simp [Miscounted] at hcount
      · exact gives_nth e index
      · simp [Miscounted] at hcount
    | isSymbol | isNumber | isString | isForm =>
      obtain ⟨e, rfl⟩ := single_of_counted hcount
      rw [evalSpecial]
      apply gives_of_first
      intro value hvalue
      exact .tested hvalue rfl
    | count =>
      obtain ⟨e, rfl⟩ := single_of_counted hcount
      rw [evalSpecial]
      apply gives_of_elements (by simp)
      intro value items hvalue hitems
      exact .counted hvalue hitems
    | first =>
      obtain ⟨e, rfl⟩ := single_of_counted hcount
      rw [evalSpecial]
      apply gives_of_elements (by simp)
      intro value items hvalue hitems
      apply gives_elementAt (by simp) hvalue hitems
      intro item hitem
      exact .first hvalue hitems hitem
    | rest =>
      obtain ⟨e, rfl⟩ := single_of_counted hcount
      rw [evalSpecial]
      apply gives_of_elements (by simp)
      intro value items hvalue hitems
      exact .rest hvalue hitems

end Special

/-! ## Expressions -/

namespace Sexp

/-- Everything evaluation of an expression can come to. -/
inductive Evaluates (env : Bindings) : Sexp → Except ExpandError Sexp → Prop where
  | literal {e : Sexp} : e.elements? = none → e.symbol? = none → Evaluates env e (.ok e)
  | symbol {name : String} : Evaluates env (.symbol name) (.ok ((env.get? name).getD (.symbol name)))
  | rebuilt {bracket : Bracket} {items values : List Sexp} : evalAll env items = .ok values →
      Evaluates env (.group bracket items) (.ok (.group bracket values))
  | folded {name : String} {operands values : List Sexp} {value : Sexp} : env.get? name = none →
      Special.ofName? name = none → evalAll env operands = .ok values →
      Constant.fold? name values = some value →
      Evaluates env (.group .round (.symbol name :: operands)) (.ok value)
  | partFails {bracket : Bracket} {items : List Sexp} {e : Sexp} {error : ExpandError} : e ∈ items →
      e.eval env = .error error → Evaluates env (.group bracket items) (.error error)
  | special {form : Special} {operands : List Sexp} {result : Except ExpandError Sexp} :
      env.get? form.name = none → form.Gives env operands result →
      Evaluates env (.group .round (.symbol form.name :: operands)) result

variable {env : Bindings}

/-- A group that goes by the values of some of its elements. -/
theorem evaluates_of_all {bracket : Bracket} {items es : List Sexp}
    {f : List Sexp → Except ExpandError Sexp} (hsub : ∀ e ∈ es, e ∈ items)
    (h : ∀ values, evalAll env es = .ok values → Evaluates env (.group bracket items) (f values)) :
    Evaluates env (.group bracket items) (evalAll env es >>= f) := by
  cases hvalues : evalAll env es with
  | error error =>
    obtain ⟨e, he, heval⟩ := error_of_evalAll hvalues
    exact .partFails (hsub e he) heval
  | ok values => exact h values hvalues

/-- A group whose head is a symbol. -/
theorem evaluates_form (name : String) (operands : List Sexp) :
    Evaluates env (.group .round (.symbol name :: operands))
      (eval env (.group .round (.symbol name :: operands))) := by
  have hsub : ∀ e ∈ operands, e ∈ symbol name :: operands := fun e => List.mem_cons_of_mem _
  -- the head stands for its value, so that it is among the values of the elements
  have hall : ∀ {values : List Sexp}, evalAll env operands = .ok values →
      evalAll env (.symbol name :: operands) = .ok ((env.get? name).getD (.symbol name) :: values) := by
    intro values hvalues
    rw [evalAll, eval, hvalues]
    rfl
  cases hget : env.get? name with
  | some value =>
    rw [eval_of_bound hget]
    apply evaluates_of_all hsub
    intro values hvalues
    have hitems := hall hvalues
    rw [hget] at hitems
    exact .rebuilt hitems
  | none =>
    cases hform : Special.ofName? name with
    | none =>
      rw [eval_of_ordinary hget hform]
      apply evaluates_of_all hsub
      intro values hvalues
      cases hfold : Constant.fold? name values with
      | some folded => exact .folded hget hform hvalues hfold
      | none =>
        have hitems := hall hvalues
        rw [hget] at hitems
        exact .rebuilt hitems
    | some form =>
      obtain rfl := name_of_special hform
      by_cases hfail : form = .fail
      · subst hfail
        rw [eval, hget, hform]
        apply evaluates_of_all hsub
        intro values hvalues
        exact .special hget (.rejected hvalues)
      · by_cases hlist : form = .list
        · subst hlist
          rw [eval, hget, hform]
          apply evaluates_of_all hsub
          intro values hvalues
          exact .special hget (.listed hvalues)
        · rw [eval_of_special hget hform hfail hlist]
          exact .special hget (Special.gives_evalSpecial hfail hlist operands)

/-- **Every evaluation follows one of the rules.** -/
theorem eval_evaluates (env : Bindings) (e : Sexp) : Evaluates env e (e.eval env) := by
  cases e with
  | number x => exact .literal rfl rfl
  | string content => exact .literal rfl rfl
  | regex pattern flags => exact .literal rfl rfl
  | symbol name => exact .symbol
  | group bracket items =>
    by_cases hhead : ∃ name operands, bracket = .round ∧ items = .symbol name :: operands
    · obtain ⟨name, operands, rfl, rfl⟩ := hhead
      exact evaluates_form name operands
    · rw [eval]
      · apply evaluates_of_all fun _ => id
        intro values hvalues
        exact .rebuilt hvalues
      · intro name operands hbracket hitems
        exact hhead ⟨name, operands, hbracket, hitems⟩

end Sexp

end FormScript
