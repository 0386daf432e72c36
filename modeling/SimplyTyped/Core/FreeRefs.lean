import SimplyTyped.Core.Traversal
import SimplyTyped.Pass.Basic
import SimplyTyped.SortedSet

/-!
# Free references

A use of a reference is free when neither a parameter of an enclosing lambda nor an
earlier top-level binding is the very same reference. The analysis is a visitor, and
its state goes on from one program to the next. It asks nothing of the program.
-/

set_option autoImplicit false

namespace SimplyTyped

/-- What is bound at the current point, and what was found free so far. -/
structure FreeRefs where
  globals : List Ref
  locals : List Ref
  free : SortedSet Ref
  deriving DecidableEq

namespace FreeRefs

def empty : FreeRefs := ⟨[], [], ∅⟩

/-- A reference is bound when it equals one in scope; its own scope plays no part. -/
def Binds (state : FreeRefs) (ref : Ref) : Prop :=
  ref ∈ state.locals ∨ ref ∈ state.globals

instance (state : FreeRefs) (ref : Ref) : Decidable (state.Binds ref) :=
  inferInstanceAs (Decidable (_ ∨ _))

def use (ref : Ref) (state : FreeRefs) : FreeRefs :=
  if state.Binds ref then state else { state with free := state.free.insert ref }

def enter (params : List Ref) (state : FreeRefs) : FreeRefs :=
  { state with locals := state.locals ++ params }

/-- Drops the parameters that were entered after there were `depth`. -/
def leave (depth : Nat) (state : FreeRefs) : FreeRefs :=
  { state with locals := state.locals.take depth }

/-- The analysis. The name of a binding counts as bound after its value, and
parameters count as bound in the body of their lambda only. -/
def visitor : Visitor FreeRefs where
  binding binding walk state :=
    let state := walk state
    { state with globals := binding.name :: state.globals }
  var := use
  lambda params _ visitBody state :=
    leave state.locals.length (visitBody (enter params state))

/-- The analysis of a program as a pass: a step for each binding and one for the
entry. -/
def pass (program : Program) : Pass FreeRefs Unit := do
  let _ ← PassT.traverse (fun binding => PassT.modify (visitor.visitBinding binding))
    program.bindings
  PassT.modify (visitor.visitExpr program.entry)

end FreeRefs

/-- The free references of an expression around which nothing is bound. -/
def Expr.freeRefs (expr : Expr) : SortedSet Ref :=
  (FreeRefs.visitor.visitExpr expr .empty).free

def Program.freeRefs (program : Program) : Except Error (SortedSet Ref) :=
  ((FreeRefs.pass program).execute .empty).map FreeRefs.free

end SimplyTyped
