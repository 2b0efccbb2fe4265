import FormScript.Macro.Basic

/-!
# Registries

The macros defined so far, at most one for each name. A new definition takes the place of the old
one of the same name.
-/

namespace FormScript

/-- The macros defined so far. -/
structure Registry where
  macros : List Macro

namespace Registry

def empty : Registry := ⟨[]⟩

/-- The macro of a name. -/
def get? (r : Registry) (name : String) : Option Macro :=
  r.macros.find? fun m => decide (m.name = name)

def contains (r : Registry) (name : String) : Bool := (r.get? name).isSome

/-- The number of macros. -/
def size (r : Registry) : Nat := r.macros.length

/-- The macros with `m` in the place of the one of its name, or at the end. -/
def replaceOrAdd (m : Macro) : List Macro → List Macro
  | [] => [m]
  | n :: rest => if n.name = m.name then m :: rest else n :: replaceOrAdd m rest

/-- Defines a macro. -/
def define (r : Registry) (m : Macro) : Registry := ⟨replaceOrAdd m r.macros⟩

/-- The macro that an expression calls, and the arguments of the call. -/
def callOf? (r : Registry) : Sexp → Option (Macro × List Sexp)
  | .group .round (.symbol name :: args) => (r.get? name).map fun m => (m, args)
  | _ => none

end Registry

end FormScript
