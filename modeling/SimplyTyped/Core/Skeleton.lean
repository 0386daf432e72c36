import SimplyTyped.Core.Expr

/-!
# Skeletons

What is left of a program when the annotations of its nodes are forgotten, and what is
left of it when, besides, the way is forgotten in which an application to several
arguments was put together. References keep the types that they carry.
-/

set_option autoImplicit false

namespace SimplyTyped

namespace Expr

mutual

/-- The expression with every annotation of a node unknown. -/
def erase : Expr → Expr
  | var ref => var ref
  | int value => int value
  | bool value => bool value
  | app _ callee arguments => app .unknown callee.erase (eraseAll arguments)
  | lambda _ params body => lambda .unknown params body.erase

def eraseAll : List Expr → List Expr
  | [] => []
  | expr :: exprs => expr.erase :: eraseAll exprs

end

/-- Applies an expression to arguments. An application takes them as further arguments
of its own. -/
def extend (arguments : List Expr) : Expr → Expr
  | app ty callee earlier => app ty callee (earlier ++ arguments)
  | callee => app .unknown callee arguments

mutual

/-- The erased expression, in which no callee is an application. -/
def flatten : Expr → Expr
  | var ref => var ref
  | int value => int value
  | bool value => bool value
  | app _ callee arguments => callee.flatten.extend (flattenAll arguments)
  | lambda _ params body => lambda .unknown params body.flatten

def flattenAll : List Expr → List Expr
  | [] => []
  | expr :: exprs => expr.flatten :: flattenAll exprs

end

theorem flattenAll_eq_map (exprs : List Expr) : flattenAll exprs = exprs.map flatten := by
  induction exprs with
  | nil => rfl
  | cons expr exprs ih => rw [flattenAll, List.map_cons, ih]

end Expr

namespace Program

def erase (program : Program) : Program :=
  ⟨program.bindings.map fun binding => ⟨binding.name, binding.value.erase⟩, program.entry.erase⟩

def flatten (program : Program) : Program :=
  ⟨program.bindings.map fun binding => ⟨binding.name, binding.value.flatten⟩,
    program.entry.flatten⟩

end Program

end SimplyTyped
