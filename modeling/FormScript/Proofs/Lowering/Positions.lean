import FormScript.Proofs.Lowering.Demands
import FormScript.Proofs.Macro.Positions

/-!
# Lowering by positions

The forms take their operands apart by patterns. Here each form is given a second time, with its operands
asked for by their positions, once their number has been checked; and lowering is given a second time, with
these layouts, with expansions by positions, and with counts that must not fall below zero. Where a
position is not there, or a count is zero, nothing comes out. Both lowerings do the same
(`Sexp.loweredByPosition_eq`), so each check is strong enough for the positions asked for after it.
-/

namespace FormScript

/-! ## Positions -/

/-- The items up to a position, which may be the end of the list. -/
def itemsUpTo {α : Type} (items : List α) (i : Nat) : Except Stop (List α) :=
  if i ≤ items.length then .ok (items.take i) else .error .outOfRange

/-- A difference of positions. -/
def minus (i j : Nat) : Except Stop Nat := if j ≤ i then .ok (i - j) else .error .outOfRange

/-- What two by two leaves: one item at most. -/
def leftOver {α : Type} : List α → List α
  | _ :: _ :: rest => leftOver rest
  | rest => rest

/-- Every item in turn. -/
def eachItem {α β : Type} (f : α → Except Stop β) : List α → Except Stop (List β)
  | [] => .ok []
  | item :: rest => do return (← f item) :: (← eachItem f rest)

theorem eachItem_eq {α β : Type} {f : α → Except Stop β} {g : α → β} {items : List α}
    (h : ∀ item ∈ items, f item = .ok (g item)) : eachItem f items = .ok (items.map g) := by
  induction items with
  | nil => rfl
  | cons item rest ih =>
    obtain ⟨hitem, hrest⟩ := List.forall_mem_cons.mp h
    rw [eachItem, hitem, ih hrest]
    rfl

/-! ## Forms -/

namespace Forms

open Layout

/-- The first item and the items after it. -/
def firstAndRest (items : List Sexp) (layout : Sexp → List Sexp → Layout) : Except Stop Layout := do
  let first ← itemAt items 0
  let rest ← itemsFrom items 1
  return layout first rest

/-- A single item. -/
def firstOnly (items : List Sexp) (layout : Sexp → Layout) : Except Stop Layout := do
  return layout (← itemAt items 0)

/-- The first two items. -/
def firstTwo (items : List Sexp) (layout : Sexp → Sexp → Layout) : Except Stop Layout := do
  return layout (← itemAt items 0) (← itemAt items 1)

def entryByPosition (pair : List Sexp) : Except Stop Layout := do
  let key ← itemAt pair 0
  if key.isSymbol || key.isString || key.isNumber then
    return concat [.operand key, ":", .operand (← itemAt pair 1)]
  else return .reject (.shape .objectKey)

def objectOfByPosition (items : List Sexp) : Except Stop Layout := do
  return parens (braces (separated "," (← eachItem entryByPosition (chunks items))))

def assignmentByPosition (pair : List Sexp) : Except Stop Layout :=
  firstTwo pair fun target value => concat [.operand target, "=", .operand value]

def assignmentsByPosition (items : List Sexp) : Except Stop Layout := do
  return separated "," (← eachItem assignmentByPosition (chunks items))

def declareByPosition (items : List Sexp) : Except Stop Layout := do
  if (pairs items).all fun (name, _) => name.isSymbol then
    return braces (concat ["var ", ← assignmentsByPosition items])
  else return .reject (.shape .declaredName)

/-- The names of a parameter list. -/
def parameters? : Sexp → Option (List String)
  | .group .round params => parameterNames? params
  | _ => none

def functionByPosition (items : List Sexp) : Except Stop Layout := do
  match parameters? (← itemAt items 0) with
  | some names => return functionOf (",".intercalate names) (functionBody (← itemsFrom items 1))
  | none => return .reject (.shape .parameterList)

def storeByPosition (items : List Sexp) : Except Stop Layout := do
  let last ← minus items.length 1
  let value ← itemAt items last
  let path ← itemsUpTo items last
  let target ← itemAt path 0
  let keys ← itemsFrom path 1
  return parens (concat [.operand target, indices keys, "=", .operand value])

def memberStepByPosition (step : Sexp) : Except Stop Layout :=
  match step with
  | .symbol name => .ok ("." ++ name)
  | .group .round items =>
    match items.head?.bind Sexp.symbol? with
    | some name => do
      return concat ["." ++ name, parens (operands "," (← itemsFrom items 1))]
    | none => .ok (.reject (.shape .methodName))
  | .group .square items =>
    if items.length = 1 then do return brackets (.operand (← itemAt items 0))
    else .ok (.reject (.shape .memberKind))
  | .string _ => .ok (brackets (.operand step))
  | .number _ => .ok (brackets (.operand step))
  | _ => .ok (.reject (.shape .memberKind))

def memberByPosition (items : List Sexp) : Except Stop Layout := do
  let target ← itemAt items 0
  let steps ← eachItem memberStepByPosition (← itemsFrom items 1)
  return parens (concat (.operand target :: steps))

def constructByPosition (items : List Sexp) : Except Stop Layout := do
  match (← itemAt items 0).symbol? with
  | some name =>
    return parens (concat ["new " ++ name, parens (operands "," (← itemsFrom items 1))])
  | none => return .reject (.shape .constructedClass)

def instanceTestByPosition (items : List Sexp) : Except Stop Layout := do
  if (← itemAt items 1).isSymbol then
    firstTwo items fun value cls => parens (concat [.operand value, " instanceof ", .operand cls])
  else return .reject (.shape .testedClass)

def conditionalByPosition (items : List Sexp) : Except Stop Layout :=
  firstTwo items fun condition yes =>
    parens (concat [.operand condition, "?", .operand yes, ":", items[2]?.elim "null" .operand])

def branchByPosition (keyword : String) (branch : List Sexp) : Except Stop Layout :=
  firstTwo branch fun condition body =>
    concat [keyword, parens (.operand condition), braces (.operand body)]

def branchesByPositionFrom (keyword : String) : List (List Sexp) → Except Stop (List Layout)
  | [] => .ok []
  | branch :: rest => do
    return (← branchByPosition keyword branch) :: (← branchesByPositionFrom "else if" rest)

def branchesByPosition (items : List Sexp) : Except Stop Layout := do
  let branches ← branchesByPositionFrom "if" (chunks items)
  let others := (leftOver items).map fun body => concat ["else", braces (.operand body)]
  return calledOnTheSpot (concat (branches ++ others))

def clauseByPosition (clause : List Sexp) : Except Stop Layout :=
  firstTwo clause fun value body => concat ["case ", .operand value, ":", .operand body, ";break"]

def casesByPosition (items : List Sexp) : Except Stop Layout := do
  let subject ← itemAt items 0
  let rest ← itemsFrom items 1
  let clauses ← eachItem clauseByPosition (chunks rest)
  let others := (leftOver rest).map fun body => concat ["default:", .operand body]
  return .join .behind (parens (.operand subject))
    (functionOf "_" (concat ["switch(_)", braces (separated ";" (clauses ++ others))]))

def loopByPosition (label : String) (items : List Sexp) : Except Stop Layout := do
  let initial ← itemAt items 0
  let condition ← itemAt items 1
  let body ← itemAt items 2
  return loopAround label initial condition body (items[3]?.elim "" .operand)

def iterationByPosition (label : String) (items : List Sexp) : Except Stop Layout :=
  firstTwo items fun object body =>
    iterationOver label object body
      (items[2]?.elim "" fun result => .wrap (.keyword "return") (.operand result))

def attemptByPosition (items : List Sexp) : Except Stop Layout :=
  firstTwo items fun body handler =>
    attemptThen body handler
      (items[2]?.elim "" fun last => concat ["finally", braces (.operand last)])

def macroDefinitionByPosition (items : List Sexp) : Except Stop Layout := do
  if items.length < 3 then return .reject (.definition .incomplete)
  else
    let head ← itemAt items 0
    match head.symbol? with
    | none => return .reject (.definition (.nameKind head.kind))
    | some name =>
      match ← itemAt items 1 with
      | .group .round params =>
        match parametersFrom name [] params with
        | .ok names => return .define ⟨name, names, ← itemsFrom items 2⟩
        | .error problem => return .reject (.definition problem)
      | _ => return .reject (.definition (.parameterList name))

/-! ### The same layouts -/

variable {items : List Sexp}

/-- The pairs of the items are asked for two items each. -/
theorem eachItem_chunks {f : List Sexp → Except Stop Layout} {g : Sexp → Sexp → Layout}
    (h : ∀ a b, f [a, b] = .ok (g a b)) (items : List Sexp) :
    eachItem f (chunks items) = .ok ((pairs items).map fun pair => g pair.1 pair.2) := by
  fun_induction pairs items with
  | case1 a b rest ih =>
    rw [chunks, eachItem, h, ih]
    rfl
  | case2 items hshort =>
    rw [chunks]
    · rfl
    · exact hshort

theorem entryByPosition_eq (key value : Sexp) : entryByPosition [key, value] = .ok (entry key value) := by
  rw [entryByPosition, itemAt_zero, entry, ok_bind]
  split
  · rfl
  · rfl

theorem objectOfByPosition_eq (items : List Sexp) :
    objectOfByPosition items = .ok (objectOf items) := by
  rw [objectOfByPosition, eachItem_chunks entryByPosition_eq]
  rfl

theorem assignmentsByPosition_eq (items : List Sexp) :
    assignmentsByPosition items = .ok (assignments items) := by
  rw [assignmentsByPosition, eachItem_chunks fun _ _ => rfl]
  rfl

theorem declareByPosition_eq (items : List Sexp) : declareByPosition items = .ok (declare items) := by
  rw [declareByPosition, assignmentsByPosition_eq, declare]
  split
  · rfl
  · rfl

theorem functionByPosition_eq (params : Sexp) (body : List Sexp) :
    functionByPosition (params :: body) = .ok (function (params :: body)) := by
  rw [functionByPosition, itemAt_zero, itemsFrom_one, ok_bind]
  cases params with
  | group bracket ps =>
    cases bracket with
    | round =>
      rw [parameters?, function]
      cases parameterNames? ps with
      | none => rfl
      | some names => rfl
    | square | curly => rfl
  | number | symbol | string | regex => rfl

/-- The value is the item before the end, and there are a target and a key before it. -/
theorem storeByPosition_eq {target : Sexp} {keys : List Sexp} (h : keys ≠ []) :
    storeByPosition (target :: keys) = .ok (store (target :: keys)) := by
  obtain ⟨path, value, rfl⟩ : ∃ path value, keys = path ++ [value] :=
    ⟨_, _, (List.dropLast_concat_getLast h).symm⟩
  have hlast : minus (target :: (path ++ [value])).length 1 = .ok (path.length + 1) := by simp [minus]
  have hvalue : itemAt (target :: (path ++ [value])) (path.length + 1) = .ok value := by simp [itemAt]
  have hpath : itemsUpTo (target :: (path ++ [value])) (path.length + 1) = .ok (target :: path) := by
    simp [itemsUpTo]
  rw [storeByPosition, hlast, ok_bind, hvalue, ok_bind, hpath, ok_bind, itemAt_zero, itemsFrom_one]
  simp only [store, List.getLast?_append, List.dropLast_concat]
  rfl

theorem memberStepByPosition_eq (step : Sexp) :
    memberStepByPosition step = .ok (memberStep step) := by
  cases step with
  | number | symbol | string | regex => rfl
  | group bracket items =>
    cases bracket with
    | curly => rfl
    | square =>
      rcases items with _ | ⟨key, _ | ⟨extra, rest⟩⟩
      · rfl
      · rfl
      · rw [memberStepByPosition, if_neg (by simp)]
        rfl
    | round =>
      rcases items with _ | ⟨head, args⟩
      · rfl
      · cases head <;> rfl

theorem memberByPosition_eq (target : Sexp) (steps : List Sexp) :
    memberByPosition (target :: steps) = .ok (member (target :: steps)) := by
  rw [memberByPosition, itemAt_zero, itemsFrom_one, ok_bind, ok_bind,
    eachItem_eq fun step _ => memberStepByPosition_eq step]
  rfl

theorem constructByPosition_eq (cls : Sexp) (args : List Sexp) :
    constructByPosition (cls :: args) = .ok (construct (cls :: args)) := by
  cases cls <;> rfl

theorem instanceTestByPosition_eq (value cls : Sexp) :
    instanceTestByPosition [value, cls] = .ok (instanceTest [value, cls]) := by
  have hcls : itemAt [value, cls] 1 = .ok cls := rfl
  rw [instanceTestByPosition, hcls, instanceTest, ok_bind]
  split
  · rfl
  · rfl

/-- The branches are the pairs and what these leave over. -/
theorem branchesByPositionFrom_eq (keyword : String) (items : List Sexp) :
    ∃ branches, branchesByPositionFrom keyword (chunks items) = .ok branches ∧
      branches ++ (leftOver items).map (fun body => concat ["else", braces (.operand body)])
        = branchesFrom keyword items := by
  fun_induction branchesFrom keyword items with
  | case1 keyword condition body rest ih =>
    obtain ⟨branches, hbranches, hall⟩ := ih
    refine ⟨concat [keyword, parens (.operand condition), braces (.operand body)] :: branches, ?_, ?_⟩
    · rw [chunks, branchesByPositionFrom, hbranches]
      rfl
    · rw [leftOver, List.cons_append, hall]
  | case2 keyword body => exact ⟨[], rfl, rfl⟩
  | case3 => exact ⟨[], rfl, rfl⟩

theorem branchesByPosition_eq (items : List Sexp) :
    branchesByPosition items = .ok (branches items) := by
  obtain ⟨parts, hparts, hall⟩ := branchesByPositionFrom_eq "if" items
  rw [branchesByPosition, hparts, branches, ← hall]
  rfl

theorem clauses_eq (items : List Sexp) :
    clauses items =
      (pairs items).map (fun pair =>
        concat ["case ", .operand pair.1, ":", .operand pair.2, ";break"])
      ++ (leftOver items).map fun body => concat ["default:", .operand body] := by
  fun_induction clauses items with
  | case1 value body rest ih =>
    rw [pairs, leftOver, List.map_cons, List.cons_append, ih]
  | case2 body => rfl
  | case3 => rfl

theorem casesByPosition_eq (subject : Sexp) (rest : List Sexp) :
    casesByPosition (subject :: rest) = .ok (cases (subject :: rest)) := by
  rw [casesByPosition, itemAt_zero, itemsFrom_one, ok_bind, ok_bind, eachItem_chunks fun _ _ => rfl,
    cases, clauses_eq]
  rfl

theorem macroDefinitionByPosition_eq (items : List Sexp) :
    macroDefinitionByPosition items = .ok (macroDefinition items) := by
  rcases items with _ | ⟨head, _ | ⟨params, _ | ⟨first, rest⟩⟩⟩
  · rfl
  · rfl
  · rfl
  · rw [macroDefinitionByPosition, if_neg (by simp)]
    cases head with
    | number | string | regex | group => rfl
    | symbol name =>
      cases params with
      | number | symbol | string | regex => rfl
      | group bracket ps =>
        cases bracket with
        | square | curly => rfl
        | round =>
          have hparams :
              itemAt (.symbol name :: .group .round ps :: first :: rest) 1 = .ok (.group .round ps) := rfl
          rw [macroDefinition, macroOf, itemAt_zero, hparams]
          simp only [Sexp.symbol?, ok_bind]
          cases parametersFrom name [] ps with
          | error problem => rfl
          | ok names => rfl

end Forms

/-! ## Expressions -/

open Layout Forms

namespace Builtin

/-- The layout of a form with a number of operands that its contract allows. -/
def bodyByPosition (form : Builtin) (label : String) (items : List Sexp) : Except Stop Layout :=
  match form with
  | .objectOf => objectOfByPosition items
  | .function => functionByPosition items
  | .giveBack =>
    firstOnly items fun value => braces (.wrap (.keyword "return") (.operand value))
  | .giveBackIf =>
    firstTwo items fun condition value =>
      braces (concat ["if", parens (.operand condition), .wrap (.keyword "return") (.operand value)])
  | .argument =>
    firstOnly items fun index =>
      parens (.wrap (.twice "arguments.length>" "?arguments[" "]:undefined") (.operand index))
  | .chain => firstAndRest items fun f groups => parens (concat (.operand f :: groups.map chainGroup))
  | .passThrough =>
    firstAndRest items fun value functions =>
      functions.foldl (fun inner f => parens (.join .behind inner (passedFunction f)))
        (parens (.operand value))
  | .assign => do return parens (← assignmentsByPosition items)
  | .declare => declareByPosition items
  | .index =>
    firstAndRest items fun target keys => parens (concat [.operand target, indices keys])
  | .store => storeByPosition items
  | .member => memberByPosition items
  | .construct => constructByPosition items
  | .instanceTest => instanceTestByPosition items
  | .conditional => conditionalByPosition items
  | .branches => branchesByPosition items
  | .cases => casesByPosition items
  | .loop => loopByPosition label items
  | .iteration => iterationByPosition label items
  | .attempt => attemptByPosition items
  | .raise => firstOnly items fun value => braces (concat ["throw ", .operand value])
  | .assertion =>
    firstTwo items fun condition value =>
      braces (concat
        ["if", parens (concat ["!", parens (.operand condition)]), "throw ", .operand value])
  | .negation => firstOnly items fun e => parens (.wrap (.operator "-") (.operand e))
  | .complement => firstOnly items fun e => parens (.wrap (.keyword "!") (.operand e))
  | .macroDefinition => macroDefinitionByPosition items
  | .operator op =>
    firstAndRest items fun first rest =>
      parens (concat
        (.operand first :: rest.map fun e => .wrap (.operator op.spelling) (.operand e)))
  -- the others go through their operands from the first to the last
  | _ => .ok (form.body label items)

/-- The layout of a built-in form; the contract is checked before anything else. -/
def layoutByPosition (form : Builtin) (args : List Sexp) : Except Stop Layout :=
  let (label, items) := form.split args
  match form.arity.violation? items.length with
  | some violation => .ok (.reject (.arity form violation))
  | none => form.bodyByPosition label items

/-- **The contract of a form is strong enough for the positions it asks for.** -/
theorem bodyByPosition_eq {form : Builtin} (label : String) {items : List Sexp}
    (hmet : form.arity.Met items.length) :
    form.bodyByPosition label items = .ok (form.body label items) := by
  cases form with
  | words | arrayOf | quotation | unary | closure | skip | leave | block | nothing | raiseError
  | raiseTypeError | exclusiveOr => rfl
  | objectOf => exact objectOfByPosition_eq items
  | declare => exact declareByPosition_eq items
  | branches => exact branchesByPosition_eq items
  | macroDefinition => exact macroDefinitionByPosition_eq items
  | assign =>
    rw [bodyByPosition, assignmentsByPosition_eq]
    rfl
  | function =>
    obtain ⟨params, body, rfl⟩ := hmet.exists_cons
    exact functionByPosition_eq params body
  | member =>
    obtain ⟨target, steps, rfl⟩ := hmet.exists_cons
    exact memberByPosition_eq target steps
  | construct =>
    obtain ⟨cls, args, rfl⟩ := hmet.exists_cons
    exact constructByPosition_eq cls args
  | cases =>
    obtain ⟨subject, rest, rfl⟩ := hmet.exists_cons
    exact casesByPosition_eq subject rest
  | chain | passThrough | index | operator =>
    obtain ⟨first, rest, rfl⟩ := hmet.exists_cons
    rfl
  | store =>
    obtain ⟨target, key, keys, rfl⟩ := hmet.exists_cons_cons
    exact storeByPosition_eq (List.cons_ne_nil key keys)
  | instanceTest =>
    obtain ⟨value, cls, rfl⟩ := List.length_eq_two.mp (Arity.met_exactly.mp hmet)
    exact instanceTestByPosition_eq value cls
  | giveBack | argument | raise | negation | complement =>
    obtain ⟨e, rfl⟩ := List.length_eq_one_iff.mp (Arity.met_exactly.mp hmet)
    rfl
  | giveBackIf | assertion =>
    obtain ⟨e, f, rfl⟩ := List.length_eq_two.mp (Arity.met_exactly.mp hmet)
    rfl
  | conditional | iteration | attempt =>
    rcases hmet.two_or_three with ⟨e, f, rfl⟩ | ⟨e, f, g, rfl⟩
    · rfl
    · rfl
  | loop =>
    rcases hmet.three_or_four with ⟨e, f, g, rfl⟩ | ⟨e, f, g, last, rfl⟩
    · rfl
    · rfl

theorem layoutByPosition_eq (form : Builtin) (args : List Sexp) :
    form.layoutByPosition args = .ok (form.layout args) := by
  unfold layoutByPosition layout
  dsimp only
  cases hviolation : form.arity.violation? (form.split args).2.length with
  | some violation => rfl
  | none => exact bodyByPosition_eq _ (Arity.violation?_eq_none_iff.mp hviolation)

/-- No form stops for want of an operand. -/
theorem operandMissing_not_mem (form blamed : Builtin) (args : List Sexp) :
    .stop (.operandMissing blamed) ∉ (form.layout args).demands := by
  unfold layout
  dsimp only
  cases hviolation : form.arity.violation? (form.split args).2.length with
  | some violation => simp
  | none =>
    intro hstop
    have hmet := Arity.violation?_eq_none_iff.mp hviolation
    by_cases hform : form = .macroDefinition
    · subst hform
      simp only [body, Forms.macroDefinition] at hstop
      split at hstop
      · simp [demands] at hstop
      · simp at hstop
    · obtain ⟨problem, hproblem⟩ := (follows_body hform _ hmet).shapes _ hstop
      cases hproblem

end Builtin

namespace Sexp

/-- The layout of an expression that is not a macro call. -/
def layoutByPosition (e : Sexp) : Except Stop Layout :=
  match e with
  | .group .square items => Builtin.arrayOf.layoutByPosition items
  | .group .curly items => Builtin.objectOf.layoutByPosition items
  | .group .round (.symbol name :: args) =>
    match Builtin.ofName? name with
    | some form => form.layoutByPosition args
    | none => .ok (Forms.call name args)
  -- atoms, and forms with another head
  | _ => .ok e.layout

theorem layoutByPosition_eq (e : Sexp) : e.layoutByPosition = .ok e.layout := by
  unfold layoutByPosition
  split
  · exact Builtin.layoutByPosition_eq _ _
  · exact Builtin.layoutByPosition_eq _ _
  · rename_i name args
    rw [layout]
    cases Builtin.ofName? name with
    | none => rfl
    | some form => exact form.layoutByPosition_eq args
  · rfl

theorem operandMissing_not_mem (blamed : Builtin) (e : Sexp) :
    .stop (.operandMissing blamed) ∉ e.layout.demands := by
  unfold layout
  split
  · simp
  · simp
  · simp
  · simp
  · exact Builtin.operandMissing_not_mem _ _ _
  · exact Builtin.operandMissing_not_mem _ _ _
  · simp
  · split
    · split
      · exact Builtin.operandMissing_not_mem _ _ _
      · simp
    · simp
    · simp

end Sexp

/-! ## Lowering -/

namespace Lowering

/-- A computation that gives nothing at all once a position or a count is out of range. -/
def Guarded (α : Type) : Type := State → Option (Except Fault α × State)

instance : Monad Guarded where
  pure a := fun s => some (.ok a, s)
  bind x f := fun s =>
    match x s with
    | some (.ok a, after) => f a after
    | some (.error fault, after) => some (.error fault, after)
    | none => none

variable {α β : Type}

/-- A computation in which nothing can be out of range. -/
def guarded (x : Lowering α) : Guarded α := fun s => some (x s)

/-- Something is out of range. -/
def outOfRange : Guarded α := fun _ => none

theorem guarded_bind (x : Lowering α) (f : α → Lowering β) :
    guarded (x >>= f) = guarded x >>= fun a => guarded (f a) := by
  funext s
  simp only [guarded, bind]
  cases x s with
  | mk outcome after => cases outcome <;> rfl

/-- Counts one more expression while `body` runs; the count can be taken back. -/
def nestedByPosition (body : Guarded α) : Guarded α := fun s => do
  let (outcome, after) ← body { s with depth := s.depth + 1 }
  if 1 ≤ after.depth then some (outcome, { after with depth := after.depth - 1 }) else none

/-- Counts one more expansion, of the macro `name`, while `body` runs; the count can be taken back. -/
def expandingByPosition (name : String) (body : Guarded α) : Guarded α := fun s =>
  if s.expansions < maxExpansion then do
    let (outcome, after) ← body { s with expansions := s.expansions + 1 }
    if 1 ≤ after.expansions then some (outcome, { after with expansions := after.expansions - 1 })
    else none
  else some (.error (.expandedTooDeeply name), s)

/-- What was counted up can be counted down: a steady computation leaves the count above zero. -/
theorem nestedByPosition_eq {body : Lowering α} (h : Steady body) :
    nestedByPosition (guarded body) = guarded (nested body) := by
  funext s
  have hdepth : 1 ≤ (body { s with depth := s.depth + 1 }).2.depth := by
    rw [(h _).1]
    exact Nat.le_add_left 1 s.depth
  exact if_pos hdepth

theorem expandingByPosition_eq {body : Lowering α} (h : Steady body) (name : String) :
    expandingByPosition name (guarded body) = guarded (expanding name body) := by
  funext s
  have hexpansions : 1 ≤ (body { s with expansions := s.expansions + 1 }).2.expansions := by
    rw [(h _).2]
    exact Nat.le_add_left 1 s.expansions
  unfold expandingByPosition guarded expanding
  by_cases hroom : s.expansions < maxExpansion
  · rw [if_pos hroom, if_pos hroom]
    exact if_pos hexpansions
  · rw [if_neg hroom, if_neg hroom]

end Lowering

open Lowering

/-- The text of a layout; a part that a contract promises and that is not there is out of range. -/
def Layout.renderByPosition (lower : Sexp → Guarded String) : Layout → Guarded String
  | .text s => pure s
  | .operand e => lower e
  | .wrap how part => do
    let s ← part.renderByPosition lower
    return how.apply s
  | .join how first second => do
    let s ← first.renderByPosition lower
    let t ← second.renderByPosition lower
    return how.apply s t
  | .reject (.operandMissing _) => outOfRange
  | .reject fault => guarded (fail fault)
  | .define m => do
    guarded (Lowering.define m)
    return ""

theorem Layout.renderByPosition_eq {lower : Sexp → Lowering String} {L : Layout}
    (h : ∀ form, .stop (.operandMissing form) ∉ L.demands) :
    L.renderByPosition (fun e => guarded (lower e)) = guarded (L.render lower) := by
  induction L with
  | text s => rfl
  | operand e => rfl
  | wrap how part ih =>
    rw [renderByPosition, render, guarded_bind, ih h]
    rfl
  | join how first second ihfirst ihsecond =>
    have hfirst : ∀ form, .stop (.operandMissing form) ∉ first.demands := fun form hmem =>
      h form (List.mem_append_left _ hmem)
    have hsecond : ∀ form, .stop (.operandMissing form) ∉ second.demands := fun form hmem =>
      h form (List.mem_append_right _ hmem)
    rw [renderByPosition, render, guarded_bind, ihfirst hfirst, ihsecond hsecond]
    simp only [guarded_bind]
    rfl
  | reject fault =>
    cases fault with
    | operandMissing form => exact absurd (List.mem_singleton_self _) (h form)
    | arity | shape | definition | expansion | expandedTooDeeply => rfl
  | define m => rfl

namespace Sexp

/-- The lowered text of an expression, with room for `room` expressions inside one another. -/
def lowerByPosition : (room : Nat) → Sexp → Guarded String
  | 0, e => guarded (fail (.shape (.nestedTooDeeply e.kind)))
  | room + 1, e => nestedByPosition do
    match (← guarded registry).callOf? e with
    | some (m, args) =>
      match m.expandByPosition args with
      | .error (.failed error) => guarded (fail (.expansion m.name error))
      | .error .outOfRange => outOfRange
      | .ok expanded => expandingByPosition m.name (lowerByPosition room expanded)
    | none =>
      match e.layoutByPosition with
      | .ok layout => layout.renderByPosition (lowerByPosition room)
      | .error _ => outOfRange

/-- The lowered text of an expression, with the room that the expressions under way leave. -/
def loweredByPosition (e : Sexp) : Guarded String := fun s => e.lowerByPosition (maxLowering - s.depth) s

theorem lowerByPosition_eq (room : Nat) (e : Sexp) :
    e.lowerByPosition room = guarded (e.lower room) := by
  induction room generalizing e with
  | zero => rfl
  | succ room ih =>
    rw [lowerByPosition, lower]
    refine Eq.trans ?_ (nestedByPosition_eq ?_)
    · rw [guarded_bind, funext ih]
      congr 2
      funext registry
      cases registry.callOf? e with
      | none =>
        dsimp only
        rw [layoutByPosition_eq]
        exact Layout.renderByPosition_eq fun form => operandMissing_not_mem form e
      | some call =>
        obtain ⟨m, args⟩ := call
        dsimp only
        rw [m.expandByPosition_eq]
        cases m.expand args with
        | error error => rfl
        | ok expanded => exact expandingByPosition_eq (expanded.lower_steady room) m.name
    · refine steady_registry.bind fun registry => ?_
      split
      · split
        · exact steady_fail _
        · exact (lower_steady room _).expanding _
      · exact e.layout.render_steady (lower_steady room)

theorem loweredByPosition_eq (e : Sexp) : e.loweredByPosition = guarded e.lowered := by
  funext s
  unfold loweredByPosition
  rw [lowerByPosition_eq]
  rfl

end Sexp

/-- **Nothing is ever out of range.** Whatever the expression, the macros that are known and the counts,
    lowering by positions does what lowering does: no position that a form or an expansion asks for is
    missing, and no count falls below zero. The same holds of each form and of the parts of an expansion
    by themselves, with any bindings, parameters and bodies. -/
theorem positions_in_range :
    (∀ (e : Sexp) (s : State), e.loweredByPosition s = some (e.lowered s))
    ∧ (∀ (form : Builtin) (args : List Sexp), form.layoutByPosition args = .ok (form.layout args))
    ∧ (∀ (m : Macro) (args : List Sexp), m.expandByPosition args = plain (m.expand args))
    ∧ (∀ (env : Bindings) (pairs : List Sexp),
        Macro.bindLetByPosition env pairs = plain (Macro.bindLet env pairs))
    ∧ (∀ (env : Bindings) (items : List Sexp),
        Sexp.evalFormByPosition env items = plain (Sexp.eval env (.group .round items)))
    ∧ ∀ (op : String) (operands : List Sexp),
        Constant.foldByPosition op operands = .ok (Constant.fold? op operands) := by
  refine ⟨?_, ?_, ?_, ?_, ?_, ?_⟩
  · intro e s
    exact congrFun e.loweredByPosition_eq s
  · exact Builtin.layoutByPosition_eq
  · exact Macro.expandByPosition_eq
  · exact Macro.bindLetByPosition_eq
  · intro env items
    exact Sexp.evalFormByPosition_of_each (Sexp.eachByPosition_eq env items)
  · exact Constant.foldByPosition_eq

end FormScript
