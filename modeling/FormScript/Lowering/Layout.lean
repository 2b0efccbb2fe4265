import FormScript.Lowering.Fault
import FormScript.Macro.Registry

/-!
# Layouts

A layout is the plan of the text that a form lowers to: fixed text, operands still to be lowered,
and the few ways in which texts are put together. It also says where lowering must stop, and which
macro it defines. Rendering a layout lowers its operands from left to right as they stand in the
layout, with the one exception that `Joint.behind` writes its first part after the second.
-/

namespace FormScript

/-! ## Putting texts together -/

/-- How two texts are joined. -/
inductive Joint where
  /-- The first, then the second. -/
  | adjacent
  /-- The second, then the first. -/
  | behind
  /-- As statements: separated by a semicolon unless one of them is empty. -/
  | statements
deriving DecidableEq

namespace Joint

def apply : Joint → String → String → String
  | .adjacent, s, t => s ++ t
  | .behind, s, t => t ++ s
  | .statements, s, t => if s.isEmpty then t else if t.isEmpty then s else s ++ ";" ++ t

end Joint

/-- What is done to one text. -/
inductive Wrap where
  /-- A keyword in front of a value, with a space unless the value is in parentheses. -/
  | keyword (word : String)
  /-- The value that a function gives back, if there is any. -/
  | result
  /-- An operator in front of an operand, with a space where the two would run together. -/
  | operator (spelling : String)
  /-- The text written twice, with fixed texts before, between and after. -/
  | twice (before between after : String)
deriving DecidableEq

namespace Wrap

/-- The first character of a text. -/
def firstChar? (s : String) : Option Char := s.toList.head?

/-- A keyword and its value. -/
def afterKeyword (word value : String) : String :=
  if firstChar? value = some '(' then word ++ value else word ++ " " ++ value

/-- Whether an operator and the text after it would be read as another operator. -/
def runTogether (spelling operand : String) : Bool :=
  match spelling.toList.getLast?, firstChar? operand with
  | some a, some b => decide (a = b) && (decide (a = '+') || decide (a = '-'))
  | _, _ => false

/-- An operator and the operand after it. -/
def afterOperator (spelling operand : String) : String :=
  if runTogether spelling operand then spelling ++ " " ++ operand else spelling ++ operand

def apply : Wrap → String → String
  | .keyword word, s => afterKeyword word s
  | .result, s => if s.isEmpty then "" else afterKeyword "return" s
  | .operator spelling, s => afterOperator spelling s
  | .twice before between after, s => before ++ s ++ between ++ s ++ after

end Wrap

/-- The plan of a lowered text. -/
inductive Layout where
  | text (s : String)
  /-- An expression to be lowered. -/
  | operand (e : Sexp)
  | wrap (how : Wrap) (part : Layout)
  | join (how : Joint) (first second : Layout)
  /-- Lowering stops here. -/
  | reject (fault : Fault)
  /-- Defines a macro and leaves no text. -/
  | define (m : Macro)

namespace Layout

instance : Coe String Layout := ⟨.text⟩

/-- The parts one after the other. -/
def concat : List Layout → Layout
  | [] => .text ""
  | [part] => part
  | part :: next :: rest => .join .adjacent part (concat (next :: rest))

/-- The parts with a separator between two neighbours. -/
def separated (separator : String) : List Layout → Layout
  | [] => .text ""
  | [part] => part
  | part :: next :: rest =>
    .join .adjacent part (.join .adjacent separator (separated separator (next :: rest)))

/-- The operands with a separator between two neighbours. -/
def operands (separator : String) (es : List Sexp) : Layout :=
  separated separator (es.map .operand)

def parens (part : Layout) : Layout := concat ["(", part, ")"]

def brackets (part : Layout) : Layout := concat ["[", part, "]"]

def braces (part : Layout) : Layout := concat ["\x7b", part, "\x7d"]

/-- The operands as statements. -/
def statements : List Sexp → Layout
  | [] => .text ""
  | e :: es => .join .statements (.operand e) (statements es)

/-- The operands as statements, the last one as the result of a function. -/
def functionBody : List Sexp → Layout
  | [] => .text ""
  | [e] => .wrap .result (.operand e)
  | e :: next :: rest => .join .statements (.operand e) (functionBody (next :: rest))

/-- A function with the given parameters. -/
def functionOf (params : String) (body : Layout) : Layout :=
  parens (concat ["function", parens params, braces body])

/-- A part that a form's contract promises is not there. -/
def missing (form : Builtin) : Layout := .reject (.operandMissing form)

end Layout

/-! ## Rendering -/

/-- What lowering works on. -/
structure Lowering.State where
  /-- The macros defined so far. -/
  registry : Registry
  /-- How many expressions are being lowered, each inside the one before it. -/
  depth : Nat
  /-- How many of them are expansions. -/
  expansions : Nat

/-- A computation that may define macros and may fail; macros defined before a failure stay. -/
def Lowering (α : Type) : Type := Lowering.State → Except Fault α × Lowering.State

namespace Lowering

/-- Before anything is lowered. -/
def State.initial : State := ⟨.empty, 0, 0⟩

instance : Monad Lowering where
  pure a := fun s => (.ok a, s)
  bind x f := fun s =>
    match x s with
    | (.ok a, after) => f a after
    | (.error fault, after) => (.error fault, after)

/-- Stops with a fault. -/
def fail {α : Type} (fault : Fault) : Lowering α := fun s => (.error fault, s)

/-- The macros defined so far. -/
def registry : Lowering Registry := fun s => (.ok s.registry, s)

/-- Defines a macro. -/
def define (m : Macro) : Lowering Unit :=
  fun s => (.ok (), { s with registry := s.registry.define m })

/-- Counts one more expression while `body` runs, up to its result or its failure. -/
def nested {α : Type} (body : Lowering α) : Lowering α := fun s =>
  let (outcome, after) := body { s with depth := s.depth + 1 }
  (outcome, { after with depth := after.depth - 1 })

/-- Counts one more expansion, of the macro `name`, while `body` runs. -/
def expanding {α : Type} (name : String) (body : Lowering α) : Lowering α := fun s =>
  if s.expansions < maxExpansion then
    let (outcome, after) := body { s with expansions := s.expansions + 1 }
    (outcome, { after with expansions := after.expansions - 1 })
  else (.error (.expandedTooDeeply name), s)

end Lowering

namespace Layout

/-- The text of a layout, with `lower` for its operands. -/
def render (lower : Sexp → Lowering String) : Layout → Lowering String
  | .text s => pure s
  | .operand e => lower e
  | .wrap how part => do
    let s ← part.render lower
    return how.apply s
  | .join how first second => do
    let s ← first.render lower
    let t ← second.render lower
    return how.apply s t
  | .reject fault => .fail fault
  | .define m => do
    Lowering.define m
    return ""

end Layout

end FormScript
