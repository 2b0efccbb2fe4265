import FormScript.Proofs.Macro.Expansion

/-!
# Expansion by positions

The evaluator of macro bodies takes operands apart by patterns. Here it is given a second time, with the
operands asked for by their positions, after the checks that are made on their number: `itemAt` and
`itemsFrom` stop with `outOfRange` where a position is not there. Both give the same results
(`Sexp.evalByPosition_eq`, `Macro.expandByPosition_eq`), so no check is too weak for the positions that are
asked for after it, whatever the macro and the arguments are.
-/

namespace FormScript

/-- How an expansion by positions stops. -/
inductive Stop where
  /-- As the expansion does. -/
  | failed (error : ExpandError)
  /-- A position was asked for that is not there. -/
  | outOfRange

/-! ## Positions -/

/-- The item at a position. -/
def itemAt {α : Type} (items : List α) (i : Nat) : Except Stop α :=
  match items[i]? with
  | some item => .ok item
  | none => .error .outOfRange

/-- The items from a position on, which may be the end of the list. -/
def itemsFrom {α : Type} (items : List α) (i : Nat) : Except Stop (List α) :=
  if i ≤ items.length then .ok (items.drop i) else .error .outOfRange

/-- Consecutive items two by two; an odd one at the end is left out. -/
def chunks {α : Type} : List α → List (List α)
  | a :: b :: rest => [a, b] :: chunks rest
  | _ => []

/-- All two neighbours. -/
def windows {α : Type} : List α → List (List α)
  | a :: b :: rest => [a, b] :: windows (b :: rest)
  | _ => []

theorem itemAt_zero {α : Type} (first : α) (rest : List α) : itemAt (first :: rest) 0 = .ok first := rfl

theorem itemsFrom_one {α : Type} (first : α) (rest : List α) :
    itemsFrom (first :: rest) 1 = .ok rest := rfl

/-- An expansion's own outcome. -/
def plain {α : Type} (x : Except ExpandError α) : Except Stop α := x.mapError .failed

theorem plain_ok {α : Type} (a : α) : plain (.ok a) = .ok a := rfl

theorem plain_pure {α : Type} (a : α) : plain (pure a) = pure a := rfl

theorem plain_bind {α β : Type} (x : Except ExpandError α) (f : α → Except ExpandError β) :
    plain (x >>= f) = plain x >>= fun a => plain (f a) := by
  cases x with
  | error error => rfl
  | ok a => rfl

/-! ## Operators on constants -/

namespace Constant

/-- Whether the two numbers of a window are related. -/
def relatedIn (rel : Number → Number → Bool) (window : List Number) : Except Stop Bool := do
  return rel (← itemAt window 0) (← itemAt window 1)

/-- Whether the numbers of every window are related; the first that are not decide. -/
def allRelated (rel : Number → Number → Bool) : List (List Number) → Except Stop Bool
  | [] => .ok true
  | window :: rest => do
    if ← relatedIn rel window then allRelated rel rest else return false

/-- An operator applied to numbers. -/
def ofNumbersByPosition (op : String) (ns : List Number) : Except Stop (Option Sexp) :=
  match arithmetic? op, comparison? op with
  | some f, _ => do
    let rest ← itemsFrom ns 1
    return some (.number (rest.foldl f (← itemAt ns 0)))
  | none, some rel => do return some (.ofBool (← allRelated rel (windows ns)))
  | none, none =>
    if op = "!=" ∧ ns.length = 2 then do
      return some (.ofBool !(← itemAt ns 0).equals (← itemAt ns 1))
    else .ok none

/-- The result of an operator on constant operands; fewer than two are not looked at. -/
def foldByPosition (op : String) (operands : List Sexp) : Except Stop (Option Sexp) :=
  if operands.length < 2 then .ok none
  else
    match Sexp.numbers? operands with
    | some ns => ofNumbersByPosition op ns
    | none =>
      match operands with
      | [.string s, .string t] => .ok (ofStrings? op s t)
      | _ => .ok none

theorem allRelated_windows (rel : Number → Number → Bool) (ns : List Number) :
    allRelated rel (windows ns) = .ok (chained rel ns) := by
  fun_induction windows ns with
  | case1 x y rest ih =>
    have hwindow : relatedIn rel [x, y] = .ok (rel x y) := rfl
    rw [allRelated, hwindow, chained]
    cases hxy : rel x y with
    | true => exact ih
    | false => rfl
  | case2 ns hshort =>
    rw [allRelated, chained]
    exact hshort

theorem length_numbers? {operands : List Sexp} {ns : List Number}
    (h : Sexp.numbers? operands = some ns) : ns.length = operands.length := by
  fun_induction Sexp.numbers? operands generalizing ns with
  | case1 =>
    cases h
    rfl
  | case2 x es ih =>
    obtain ⟨ms, hms, rfl⟩ := Option.map_eq_some_iff.mp h
    rw [List.length_cons, List.length_cons, ih hms]
  | case3 => cases h

theorem ofNumbersByPosition_eq (op : String) (x y : Number) (rest : List Number) :
    ofNumbersByPosition op (x :: y :: rest) = .ok (ofNumbers? op x (y :: rest)) := by
  unfold ofNumbersByPosition ofNumbers?
  cases arithmetic? op with
  | some f => rfl
  | none =>
    cases comparison? op with
    | some rel =>
      simp only [allRelated_windows]
      rfl
    | none =>
      by_cases hop : op = "!="
      · subst hop
        cases rest with
        | nil => rfl
        | cons z rest => simp
      · simp [hop]

/-- **Fewer than two operands are turned away before their positions are asked for.** -/
theorem foldByPosition_eq (op : String) (operands : List Sexp) :
    foldByPosition op operands = .ok (fold? op operands) := by
  unfold foldByPosition
  rcases operands with _ | ⟨e, _ | ⟨f, rest⟩⟩
  · rfl
  · cases e <;> rfl
  · rw [if_neg (by simp)]
    unfold fold?
    cases hnumbers : Sexp.numbers? (e :: f :: rest) with
    | none =>
      dsimp only
      split
      · rename_i htwo
        cases htwo
        rfl
      · rename_i hstrings
        split
        · rename_i hnone
          cases hnone
        · rename_i s t htwo _
          exact (hstrings s t htwo).elim
        · rfl
    | some ns =>
      have hlength := length_numbers? hnumbers
      rcases ns with _ | ⟨x, _ | ⟨y, ns⟩⟩
      · simp at hlength
      · simp at hlength
      · exact ofNumbersByPosition_eq op x y ns

end Constant

/-! ## Evaluation -/

namespace Sexp

/-- Refuses numbers of operands that are not in a range. -/
def wantOperands (form : Special) (operands : List Sexp) (min max : Nat) : Except Stop Unit :=
  if operands.length < min ∨ max < operands.length then
    .error (.failed (.operandCount form operands.length))
  else .ok ()

/-- The name of a symbol that is not bound. -/
def unbound? (env : Bindings) (head : Sexp) : Option String :=
  head.symbol?.bind fun name => if (env.get? name).isSome then none else some name

/-- The operand of a quotation, or all of them as a form. -/
def quoted : List Sexp → Sexp
  | [e] => e
  | es => .group .round es

theorem sizeOf_drop_le (es : List Sexp) (i : Nat) : sizeOf (es.drop i) ≤ sizeOf es := by
  induction es generalizing i with
  | nil => simp
  | cons e es ih =>
    cases i with
    | zero => exact Nat.le_refl _
    | succ i =>
      rw [List.drop_succ_cons, List.cons.sizeOf_spec]
      exact Nat.le_add_left_of_le (ih i)

mutual

/-- The value of an expression in a macro body. -/
def evalByPosition (env : Bindings) (e : Sexp) : Except Stop Sexp :=
  match e with
  | .number x => .ok (.number x)
  | .string content => .ok (.string content)
  | .regex pattern flags => .ok (.regex pattern flags)
  | .symbol name => .ok ((env.get? name).getD (.symbol name))
  | .group .round items => evalFormByPosition env items
  | .group .square items => do return .group .square (← evalAllByPosition env items)
  | .group .curly items => do return .group .curly (← evalAllByPosition env items)
termination_by (sizeOf e, 0)

/-- The values of expressions, from left to right. -/
def evalAllByPosition (env : Bindings) (es : List Sexp) : Except Stop (List Sexp) :=
  match es with
  | [] => .ok []
  | e :: es => do return (← evalByPosition env e) :: (← evalAllByPosition env es)
termination_by (sizeOf es, 0)

/-- The value of the operand at a position. -/
def evalAt (env : Bindings) (operands : List Sexp) (i : Nat) : Except Stop Sexp :=
  match _h : operands[i]? with
  | some e => evalByPosition env e
  | none => .error .outOfRange
termination_by (sizeOf operands, 0)
decreasing_by exact Prod.Lex.left _ _ (List.sizeOf_lt_of_mem (List.mem_of_getElem? _h))

/-- The values of the operands from a position on. -/
def evalFrom (env : Bindings) (operands : List Sexp) (i : Nat) : Except Stop (List Sexp) :=
  if i ≤ operands.length then evalAllByPosition env (operands.drop i) else .error .outOfRange
termination_by (sizeOf operands, 1)
decreasing_by
  rcases Nat.lt_or_eq_of_le (sizeOf_drop_le operands i) with hlt | heq
  · exact Prod.Lex.left _ _ hlt
  · rw [heq]
    exact Prod.Lex.right _ Nat.one_pos

/-- The branch that a constant condition picks; with any other condition the form is rebuilt. -/
def chooseByPosition (env : Bindings) (operands : List Sexp) : Except Stop Sexp := do
  wantOperands .choose operands 2 3
  let condition ← evalAt env operands 0
  match condition.truth? with
  | some true => evalAt env operands 1
  | some false => if 2 < operands.length then evalAt env operands 2 else .ok (.symbol "null")
  | none => do return .group .round (.symbol "if" :: condition :: (← evalFrom env operands 1))
termination_by (sizeOf operands, 2)

/-- The element of a group that an operand gives, at the index that the next operand gives, or the first
    element if there is no further operand. -/
def pickByPosition (env : Bindings) (form : Special) (count : Nat) (operands : List Sexp) :
    Except Stop Sexp := do
  wantOperands form operands count count
  let value ← evalAt env operands 0
  let items ← plain (elementsFor form value)
  let index ← if 1 < operands.length then do plain (indexFor form (← evalAt env operands 1)) else .ok 0
  plain (elementAt form value items index)
termination_by (sizeOf operands, 1)

/-- The value of a form in a macro body. -/
def evalFormByPosition (env : Bindings) (items : List Sexp) : Except Stop Sexp :=
  match items with
  | [] => .ok (.group .round [])
  | head :: operands =>
    match unbound? env head with
    | none => do return .group .round (← evalAllByPosition env (head :: operands))
    | some name =>
      match Special.ofName? name with
      | some .quote => .ok (quoted operands)
      | some .fail => do
        let values ← evalAllByPosition env operands
        .error (.failed (.rejected (" ".intercalate (values.map reasonText))))
      | some .choose => chooseByPosition env operands
      | some .isSymbol => do
        wantOperands .isSymbol operands 1 1
        return .ofBool (← evalAt env operands 0).isSymbol
      | some .isNumber => do
        wantOperands .isNumber operands 1 1
        return .ofBool (← evalAt env operands 0).isNumber
      | some .isString => do
        wantOperands .isString operands 1 1
        return .ofBool (← evalAt env operands 0).isString
      | some .isForm => do
        wantOperands .isForm operands 1 1
        return .ofBool (← evalAt env operands 0).elements?.isSome
      | some .count => do
        wantOperands .count operands 1 1
        let items ← plain (elementsFor .count (← evalAt env operands 0))
        return .number (.ofNat items.length)
      | some .nth => pickByPosition env .nth 2 operands
      | some .first => pickByPosition env .first 1 operands
      | some .rest => do
        wantOperands .rest operands 1 1
        let value ← evalAt env operands 0
        let items ← plain (elementsFor .rest value)
        return value.regroup items.tail
      | some .list => do return .group .round (← evalAllByPosition env operands)
      | none => do
        let values ← evalAllByPosition env operands
        return (← Constant.foldByPosition name values).getD (.group .round (head :: values))
termination_by (sizeOf items, 3)

end

section Each

variable {env : Bindings} {operands : List Sexp}
  (heach : ∀ e ∈ operands, evalByPosition env e = plain (eval env e))

include heach

theorem evalAllByPosition_of_each : evalAllByPosition env operands = plain (evalAll env operands) := by
  induction operands with
  | nil =>
    rw [evalAllByPosition, evalAll]
    rfl
  | cons e es ih =>
    obtain ⟨he, hes⟩ := List.forall_mem_cons.mp heach
    rw [evalAllByPosition, evalAll, he, ih hes, plain_bind]
    simp only [plain_bind, plain_pure]

theorem evalAt_of_each {i : Nat} {e : Sexp} (h : operands[i]? = some e) :
    evalAt env operands i = plain (eval env e) := by
  have he := heach e (List.mem_of_getElem? h)
  rw [evalAt]
  split
  · rename_i found hfound
    rw [h] at hfound
    cases hfound
    exact he
  · rename_i hnone
    rw [h] at hnone
    cases hnone

theorem evalFrom_of_each {i : Nat} (h : i ≤ operands.length) :
    evalFrom env operands i = plain (evalAll env (operands.drop i)) := by
  rw [evalFrom, if_pos h]
  apply evalAllByPosition_of_each
  intro e he
  exact heach e (List.mem_of_mem_drop he)

end Each

theorem wantOperands_then {α : Type} {form : Special} {operands : List Sexp} {min max : Nat}
    (hmin : min ≤ operands.length) (hmax : operands.length ≤ max) (x : Except Stop α) :
    (wantOperands form operands min max >>= fun _ => x) = x := by
  unfold wantOperands
  rw [if_neg (by omega)]
  rfl

theorem wantOperands_else {α : Type} {form : Special} {operands : List Sexp} {min max : Nat}
    (h : operands.length < min ∨ max < operands.length) (x : Except Stop α) :
    (wantOperands form operands min max >>= fun _ => x)
      = plain (.error (.operandCount form operands.length)) := by
  unfold wantOperands
  rw [if_pos h]
  rfl

theorem unary_of_each {env : Bindings} {operands : List Sexp}
    (heach : ∀ e ∈ operands, evalByPosition env e = plain (eval env e)) {form : Special}
    {k : Sexp → Except Stop Sexp} (hone : ∀ e, operands = [e] →
      (plain (eval env e) >>= k) = plain (evalSpecial env form operands))
    (hcount : operands.length < 1 ∨ 1 < operands.length → Miscounted form operands.length) :
    (do wantOperands form operands 1 1; let value ← evalAt env operands 0; k value)
      = plain (evalSpecial env form operands) := by
  by_cases hlength : operands.length = 1
  · obtain ⟨e, rfl⟩ := List.length_eq_one_iff.mp hlength
    rw [wantOperands_then (Nat.le_refl 1) (Nat.le_refl 1), evalAt_of_each heach rfl]
    exact hone e rfl
  · have houtside : operands.length < 1 ∨ 1 < operands.length := by omega
    rw [wantOperands_else houtside, evalSpecial_of_miscounted (hcount houtside)]

theorem pickByPosition_first {env : Bindings} {operands : List Sexp}
    (heach : ∀ e ∈ operands, evalByPosition env e = plain (eval env e)) :
    pickByPosition env .first 1 operands = plain (evalSpecial env .first operands) := by
  rw [pickByPosition]
  apply unary_of_each heach
  · rintro e rfl
    rw [evalSpecial]
    simp only [plain_bind]
    rfl
  · exact id

theorem pickByPosition_nth {env : Bindings} {operands : List Sexp}
    (heach : ∀ e ∈ operands, evalByPosition env e = plain (eval env e)) :
    pickByPosition env .nth 2 operands = plain (evalSpecial env .nth operands) := by
  rw [pickByPosition]
  by_cases hcount : Miscounted .nth operands.length
  · rw [wantOperands_else hcount, evalSpecial_of_miscounted hcount]
  · rcases operands with _ | ⟨e, _ | ⟨index, _ | ⟨extra, rest⟩⟩⟩
    · simp [Miscounted] at hcount
    · simp [Miscounted] at hcount
    · rw [wantOperands_then (Nat.le_refl 2) (Nat.le_refl 2), evalAt_of_each heach (i := 0) rfl,
        evalAt_of_each heach (i := 1) rfl, evalSpecial]
      simp only [plain_bind, List.length_cons, List.length_nil]
      rfl
    · simp [Miscounted] at hcount

theorem chooseByPosition_of_each {env : Bindings} {operands : List Sexp}
    (heach : ∀ e ∈ operands, evalByPosition env e = plain (eval env e)) :
    chooseByPosition env operands = plain (evalSpecial env .choose operands) := by
  rw [chooseByPosition]
  by_cases hcount : Miscounted .choose operands.length
  · rw [wantOperands_else hcount, evalSpecial_of_miscounted hcount]
  · rcases operands with _ | ⟨condition, _ | ⟨yes, _ | ⟨no, _ | ⟨extra, rest⟩⟩⟩⟩
    · simp [Miscounted] at hcount
    · simp [Miscounted] at hcount
    · rw [wantOperands_then (by simp) (by simp), evalAt_of_each heach (i := 0) rfl,
        evalAt_of_each heach (i := 1) rfl, evalFrom_of_each heach (by simp), evalSpecial, plain_bind]
      apply bind_congr
      intro value
      cases value.truth? with
      | none =>
        simp only [List.drop_succ_cons, List.drop_zero, evalAll, plain_bind, bind_assoc]
        rfl
      | some truth => cases truth <;> rfl
    · rw [wantOperands_then (by simp) (by simp), evalAt_of_each heach (i := 0) rfl,
        evalAt_of_each heach (i := 1) rfl, evalAt_of_each heach (i := 2) rfl,
        evalFrom_of_each heach (by simp), evalSpecial, plain_bind]
      apply bind_congr
      intro value
      cases value.truth? with
      | none =>
        simp only [List.drop_succ_cons, List.drop_zero, evalAll, plain_bind, bind_assoc]
        rfl
      | some truth => cases truth <;> rfl
    · simp [Miscounted] at hcount

theorem unbound?_symbol_of_some {env : Bindings} {name : String} {value : Sexp}
    (h : env.get? name = some value) : unbound? env (.symbol name) = none := by
  simp [unbound?, symbol?, h]

theorem unbound?_symbol_of_none {env : Bindings} {name : String} (h : env.get? name = none) :
    unbound? env (.symbol name) = some name := by
  simp [unbound?, symbol?, h]

/-- A form whose head is an unbound symbol: the cases are those of the special forms, and an operator. -/
theorem evalFormByPosition_of_unbound {env : Bindings} {name : String} {operands : List Sexp}
    (hget : env.get? name = none)
    (heach : ∀ e ∈ operands, evalByPosition env e = plain (eval env e)) :
    evalFormByPosition env (.symbol name :: operands)
      = plain (eval env (.group .round (.symbol name :: operands))) := by
  rw [evalFormByPosition, unbound?_symbol_of_none hget]
  dsimp only
  cases hform : Special.ofName? name with
  | none =>
    rw [eval_of_ordinary hget hform, evalAllByPosition_of_each heach, plain_bind]
    simp only [Constant.foldByPosition_eq]
    rfl
  | some form =>
    cases form with
    | fail =>
      rw [eval, hget, hform, evalAllByPosition_of_each heach]
      simp only [plain_bind]
      rfl
    | list =>
      rw [eval, hget, hform, evalAllByPosition_of_each heach]
      simp only [plain_bind]
      rfl
    | quote =>
      rw [eval_of_special hget hform (by decide) (by decide)]
      rcases operands with _ | ⟨e, _ | ⟨f, rest⟩⟩ <;> rfl
    | choose =>
      rw [eval_of_special hget hform (by decide) (by decide)]
      exact chooseByPosition_of_each heach
    | nth =>
      rw [eval_of_special hget hform (by decide) (by decide)]
      exact pickByPosition_nth heach
    | first =>
      rw [eval_of_special hget hform (by decide) (by decide)]
      exact pickByPosition_first heach
    | isSymbol | isNumber | isString | isForm | count | rest =>
      rw [eval_of_special hget hform (by decide) (by decide)]
      apply unary_of_each heach
      · rintro e rfl
        rw [evalSpecial]
        simp only [plain_bind]
        rfl
      · exact id

/-- A form is evaluated as its elements are. -/
theorem evalFormByPosition_of_each {env : Bindings} {items : List Sexp}
    (heach : ∀ e ∈ items, evalByPosition env e = plain (eval env e)) :
    evalFormByPosition env items = plain (eval env (.group .round items)) := by
  rcases items with _ | ⟨head, operands⟩
  · rw [evalFormByPosition, eval, evalAll]
    · rfl
    · intro name operands _ hitems
      cases hitems
  · have hrebuilt : unbound? env head = none → evalFormByPosition env (head :: operands)
        = plain (evalAll env (head :: operands) >>= fun values => pure (.group .round values)) := by
      intro hbound
      rw [evalFormByPosition, hbound, evalAllByPosition_of_each heach, plain_bind]
      rfl
    cases head with
    | symbol name =>
      cases hget : env.get? name with
      | none =>
        exact evalFormByPosition_of_unbound hget (List.forall_mem_cons.mp heach).2
      | some value =>
        rw [hrebuilt (unbound?_symbol_of_some hget), eval_of_bound hget, evalAll, eval, hget]
        simp only [bind_assoc]
        rfl
    | number | string | regex | group =>
      rw [hrebuilt rfl, eval]
      intro name operands _ hitems
      cases hitems

mutual

/-- **No position that evaluation asks for is out of range.** -/
theorem evalByPosition_eq (env : Bindings) (e : Sexp) :
    evalByPosition env e = plain (eval env e) := by
  cases e with
  | number x => rw [evalByPosition, eval, plain_ok]
  | string content => rw [evalByPosition, eval, plain_ok]
  | regex pattern flags => rw [evalByPosition, eval, plain_ok]
  | symbol name => rw [evalByPosition, eval, plain_ok]
  | group bracket items =>
    have heach := eachByPosition_eq env items
    cases bracket with
    | round =>
      rw [evalByPosition]
      exact evalFormByPosition_of_each heach
    | square | curly =>
      rw [evalByPosition, evalAllByPosition_of_each heach, eval, plain_bind]
      · rfl
      · intro name operands hbracket
        cases hbracket

theorem eachByPosition_eq (env : Bindings) (es : List Sexp) :
    ∀ e ∈ es, evalByPosition env e = plain (eval env e) := by
  cases es with
  | nil =>
    intro e he
    cases he
  | cons e es => exact List.forall_mem_cons.mpr ⟨evalByPosition_eq env e, eachByPosition_eq env es⟩

end

end Sexp

/-! ## Macros -/

namespace Macro

open Sexp

/-- Binds the names of pairs to their values, one after the other. -/
def bindPairsByPosition (env : Bindings) : List (List Sexp) → Except Stop Bindings
  | [] => .ok env
  | pair :: rest => do
    match (← itemAt pair 0).symbol? with
    | some name =>
      let value ← evalByPosition env (← itemAt pair 1)
      bindPairsByPosition ((name, value) :: env) rest
    | none => .error (.failed (.letTarget (← itemAt pair 0)))

/-- The bindings of a `let`. -/
def bindLetByPosition (env : Bindings) (pairs : List Sexp) : Except Stop Bindings :=
  if pairs.isEmpty ∨ pairs.length % 2 ≠ 0 then .error (.failed .unpairedLet)
  else bindPairsByPosition env (chunks pairs)

/-- The bindings after a statement. -/
def runStatementByPosition (env : Bindings) (statement : Sexp) : Except Stop Bindings :=
  match statement with
  | .group .round items =>
    if items.head?.bind symbol? = some "let" then do bindLetByPosition env (← itemsFrom items 1)
    else do
      let _ ← evalByPosition env statement
      return env
  | _ => do
    let _ ← evalByPosition env statement
    return env

/-- The value of a body. -/
def runBodyByPosition (env : Bindings) : List Sexp → Except Stop Sexp
  | [] => .error (.failed .noBody)
  | [result] => evalByPosition env result
  | statement :: rest => do runBodyByPosition (← runStatementByPosition env statement) rest

/-- The expression that a call with these arguments stands for. -/
def expandByPosition (m : Macro) (args : List Sexp) : Except Stop Sexp :=
  if args.length = m.params.length then runBodyByPosition (.ofParams m.params args) m.body
  else .error (.failed (.argumentCount m.params.length args.length))

/-- The pairs are asked for their two items, and that is what they have. -/
theorem bindPairsByPosition_chunks (env : Bindings) (pairs : List Sexp) :
    bindPairsByPosition env (chunks pairs) = plain (bindPairs env pairs) := by
  fun_induction bindPairs env pairs with
  | case1 env target value rest name hname ih =>
    have hsecond : itemAt [target, value] 1 = .ok value := rfl
    rw [chunks, bindPairsByPosition, itemAt_zero, ok_bind, hsecond, plain_bind]
    simp only [hname, ok_bind, evalByPosition_eq, ih]
  | case2 env target value rest hname =>
    rw [chunks, bindPairsByPosition, itemAt_zero, ok_bind, ok_bind]
    simp only [hname]
    rfl
  | case3 env pairs hshort =>
    rw [chunks, bindPairsByPosition]
    · rfl
    · exact hshort

theorem bindLetByPosition_eq (env : Bindings) (pairs : List Sexp) :
    bindLetByPosition env pairs = plain (bindLet env pairs) := by
  unfold bindLetByPosition bindLet
  split
  · rfl
  · exact bindPairsByPosition_chunks env pairs

theorem runStatementByPosition_eq (env : Bindings) (statement : Sexp) :
    runStatementByPosition env statement = plain (runStatement env statement) := by
  unfold runStatement
  split
  · rename_i pairs
    exact bindLetByPosition_eq env pairs
  · rename_i hlet
    rw [plain_bind, ← evalByPosition_eq]
    unfold runStatementByPosition
    split
    · rename_i items
      have hother : items.head?.bind symbol? ≠ some "let" := by
        intro hhead
        obtain ⟨head, hitems, hname⟩ := Option.bind_eq_some_iff.mp hhead
        obtain ⟨pairs, rfl⟩ := List.head?_eq_some_iff.mp hitems
        cases head with
        | symbol name =>
          cases hname
          exact hlet pairs rfl
        | number | string | regex | group => cases hname
      rw [if_neg hother]
      rfl
    · rfl

theorem runBodyByPosition_eq (env : Bindings) (body : List Sexp) :
    runBodyByPosition env body = plain (runBody env body) := by
  fun_induction runBody env body with
  | case1 env => rfl
  | case2 env result => exact evalByPosition_eq env result
  | case3 env statement rest hrest ih =>
    rw [runBodyByPosition, runStatementByPosition_eq, plain_bind]
    · simp only [ih]
    · exact hrest

/-- **No position that an expansion asks for is out of range.** -/
theorem expandByPosition_eq (m : Macro) (args : List Sexp) :
    m.expandByPosition args = plain (m.expand args) := by
  unfold expandByPosition expand
  split
  · exact runBodyByPosition_eq _ _
  · rfl

end Macro

end FormScript
