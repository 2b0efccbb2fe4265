import FormScript.Lowering.Forms.Function

/-!
# Control flow

Loops and choices between statements are put into functions called on the spot, so that every form
can stand where a value is wanted.
-/

namespace FormScript.Forms

open Layout

/-- A choice between values: `(if c t f)` is `(c?t:f)`, with `null` for a missing last operand. -/
def conditional : List Sexp → Layout
  | [condition, yes] => parens (concat [.operand condition, "?", .operand yes, ":", "null"])
  | [condition, yes, no] =>
    parens (concat [.operand condition, "?", .operand yes, ":", .operand no])
  | _ => missing .conditional

/-- Conditions with their statements, and possibly a statement for the case that none holds. -/
def branchesFrom (keyword : String) : List Sexp → List Layout
  | condition :: body :: rest =>
    concat [keyword, parens (.operand condition), braces (.operand body)] ::
      branchesFrom "else if" rest
  | [body] => [concat ["else", braces (.operand body)]]
  | [] => []

/-- A choice between statements by conditions tried in turn: `(cond c1 b1 c2 b2 d)`. -/
def branches (items : List Sexp) : Layout := calledOnTheSpot (concat (branchesFrom "if" items))

/-- Values with their statements, and possibly a statement for all other values. -/
def clauses : List Sexp → List Layout
  | value :: body :: rest =>
    concat ["case ", .operand value, ":", .operand body, ";break"] :: clauses rest
  | [body] => [concat ["default:", .operand body]]
  | [] => []

/-- A choice between statements by the value of a subject, which is lowered first and written last:
    `(switch x v1 b1 v2 b2 d)`. -/
def cases : List Sexp → Layout
  | subject :: items =>
    .join .behind (parens (.operand subject))
      (functionOf "_" (concat ["switch(_)", braces (separated ";" (clauses items))]))
  | [] => missing .cases

/-- Takes a label such as `outer:` off the operands; the text is empty if there is none. -/
def splitLabel (items : List Sexp) : String × List Sexp :=
  match items with
  | .symbol name :: rest =>
    if 1 < name.length ∧ name.toList.getLast? = some ':' then (name, rest) else ("", items)
  | _ => ("", items)

/-- A loop with its initial statement and what is done after it. -/
def loopAround (label : String) (initial condition body : Sexp) (after : Layout) : Layout :=
  calledOnTheSpot (.join .statements (.operand initial)
    (concat [label ++ "while", parens (.operand condition), braces (.operand body), after]))

/-- A loop: `(while label: init c body after)`. -/
def loop (label : String) : List Sexp → Layout
  | [initial, condition, body] => loopAround label initial condition body ""
  | [initial, condition, body, after] => loopAround label initial condition body (.operand after)
  | _ => missing .loop

/-- A loop over the members of an object, which is lowered first and written last. -/
def iterationOver (label : String) (object body : Sexp) (result : Layout) : Layout :=
  .join .behind (parens (.operand object))
    (functionOf "obj_" (concat
      [label ++ "for(var key in obj_)", braces (concat ["var val=obj_[key];", .operand body]),
        result]))

/-- A loop over members: `(iter label: o body result)`. -/
def iteration (label : String) : List Sexp → Layout
  | [object, body] => iterationOver label object body ""
  | [object, body, result] =>
    iterationOver label object body (.wrap (.keyword "return") (.operand result))
  | _ => missing .iteration

/-- A label as jumps name it: one colon at the end is dropped. -/
def labelName (label : String) : String :=
  if label.toList.getLast? = some ':' then String.ofList label.toList.dropLast else label

/-- A jump to the next round of a loop or out of it: `(continue)`, `(break outer)`. -/
def jump (form : Builtin) : List Sexp → Layout
  | [] => braces form.name
  | [.symbol label] => braces (form.name ++ " " ++ labelName label)
  | [_] => .reject (.shape (.jumpLabel form))
  | _ => missing form

/-- Statements in braces: `(block a b)`. -/
def block (items : List Sexp) : Layout := braces (Layout.statements items)

end FormScript.Forms
