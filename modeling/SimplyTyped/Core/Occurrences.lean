import SimplyTyped.Core.Expr

/-!
# What occurs in core programs

Four lists that are read off a program as it stands, without a traversal and without a
state: the references that it binds, those that it uses free, all that it uses in the
order in which verification meets them, and the types that it states.
-/

set_option autoImplicit false

namespace SimplyTyped

/-! ## Binders -/

namespace Expr

mutual

/-- The parameters of all lambdas in an expression, those of a lambda before those in
its body, and those in a callee before those in its arguments. -/
def binders : Expr → List Ref
  | var _ | int _ | bool _ => []
  | app _ callee arguments => callee.binders ++ bindersAll arguments
  | lambda _ params body => params ++ body.binders

def bindersAll : List Expr → List Ref
  | [] => []
  | expr :: exprs => expr.binders ++ bindersAll exprs

end

end Expr

/-- The references that a program binds. The name of a binding follows the binders in
its value. -/
def Program.binders (program : Program) : List Ref :=
  program.bindings.flatMap (fun binding => binding.value.binders ++ [binding.name]) ++
    program.entry.binders

/-! ## Free uses -/

namespace Expr

mutual

/-- The references that are used in an expression and are no parameter of a lambda
around their use. -/
def freeUses : Expr → List Ref
  | var ref => [ref]
  | int _ | bool _ => []
  | app _ callee arguments => callee.freeUses ++ freeUsesAll arguments
  | lambda _ params body => body.freeUses.filter (· ∉ params)

def freeUsesAll : List Expr → List Ref
  | [] => []
  | expr :: exprs => expr.freeUses ++ freeUsesAll exprs

end

end Expr

/-- The free uses in bindings and in the expression after them. The name of a binding
is bound in everything that follows it. -/
def freeUsesFrom (entry : Expr) : List Binding → List Ref
  | [] => entry.freeUses
  | binding :: bindings =>
      binding.value.freeUses ++ (freeUsesFrom entry bindings).filter (· ≠ binding.name)

def Program.freeUses (program : Program) : List Ref :=
  freeUsesFrom program.entry program.bindings

/-! ## Uses in the order of verification

Verification meets the arguments of an application before its callee. -/

namespace Expr

mutual

/-- The references that are used in an expression, arguments before the callee. -/
def checkedUses : Expr → List Ref
  | var ref => [ref]
  | int _ | bool _ => []
  | app _ callee arguments => checkedUsesAll arguments ++ callee.checkedUses
  | lambda _ _ body => body.checkedUses

def checkedUsesAll : List Expr → List Ref
  | [] => []
  | expr :: exprs => expr.checkedUses ++ checkedUsesAll exprs

end

end Expr

/-- The references that are used in a program, as verification meets them. -/
def Program.checkedUses (program : Program) : List Ref :=
  program.bindings.flatMap (·.value.checkedUses) ++ program.entry.checkedUses

/-! ## Types

Every node of an expression states a type, and so does every reference that a program
binds. These are all the types that a reader of a program can meet. -/

namespace Expr

mutual

/-- The types that occur in an expression: on each node, and on each parameter. -/
def tys : Expr → List Ty
  | var ref => [ref.ty]
  | int _ => [.int]
  | bool _ => [.bool]
  | app ty callee arguments => ty :: (callee.tys ++ tysAll arguments)
  | lambda ty params body => ty :: (params.map (·.ty) ++ body.tys)

def tysAll : List Expr → List Ty
  | [] => []
  | expr :: exprs => expr.tys ++ tysAll exprs

end

theorem ty_mem_tys (expr : Expr) : expr.ty ∈ expr.tys := by
  cases expr <;> exact List.mem_cons_self

end Expr

/-- The types that occur in a program. The name of a binding states one as well. -/
def Program.tys (program : Program) : List Ty :=
  program.bindings.flatMap (fun binding => binding.name.ty :: binding.value.tys) ++
    program.entry.tys

end SimplyTyped
