import SimplyTyped.Core.Expr

/-!
# Traversing core programs

A visitor has one callback for each kind of node, and each callback receives the
walk of the node's children, to run when, and as often as, it sees fit. The
callbacks that are left alone just continue. `Program.uses` lists the references
that a traversal meets, in the order in which it meets them.
-/

set_option autoImplicit false

namespace SimplyTyped

/-- Callbacks over a state of type `σ`. Where a callback takes a function on
states, that function walks the children of the node. -/
structure Visitor (σ : Type) where
  program : Program → (σ → σ) → σ → σ := fun _ walk => walk
  binding : Binding → (σ → σ) → σ → σ := fun _ walk => walk
  expr : Expr → (σ → σ) → σ → σ := fun _ walk => walk
  /-- Called on each use of a reference, after `expr` has met the variable. -/
  var : Ref → σ → σ := fun _ state => state
  /-- Called on each lambda, after `expr` has met it, with the walk of the body. -/
  lambda : List Ref → Expr → (σ → σ) → σ → σ := fun _ _ visitBody => visitBody

namespace Visitor

variable {σ : Type}

mutual

def visitExpr (visitor : Visitor σ) : Expr → σ → σ
  | .var ref => visitor.expr (.var ref) (visitor.var ref)
  | .int value => visitor.expr (.int value) id
  | .bool value => visitor.expr (.bool value) id
  | .app ty callee arguments =>
      visitor.expr (.app ty callee arguments) fun state =>
        visitor.visitExprs arguments (visitor.visitExpr callee state)
  | .lambda ty params body =>
      visitor.expr (.lambda ty params body) <|
        visitor.lambda params body (visitor.visitExpr body)

def visitExprs (visitor : Visitor σ) : List Expr → σ → σ
  | [] => id
  | expr :: exprs => fun state => visitor.visitExprs exprs (visitor.visitExpr expr state)

end

def visitLambda (visitor : Visitor σ) (params : List Ref) (body : Expr) : σ → σ :=
  visitor.lambda params body (visitor.visitExpr body)

/-- Meets a binding. Its name is no use of a reference. -/
def visitBinding (visitor : Visitor σ) (binding : Binding) : σ → σ :=
  visitor.binding binding (visitor.visitExpr binding.value)

def visitProgram (visitor : Visitor σ) (program : Program) : σ → σ :=
  visitor.program program fun state =>
    visitor.visitExpr program.entry <|
      program.bindings.foldl (fun state binding => visitor.visitBinding binding state) state

end Visitor

namespace Expr

mutual

/-- The references that are used in an expression, callee before arguments.
Parameters are no uses. -/
def uses : Expr → List Ref
  | var ref => [ref]
  | int _ | bool _ => []
  | app _ callee arguments => callee.uses ++ usesAll arguments
  | lambda _ _ body => body.uses

def usesAll : List Expr → List Ref
  | [] => []
  | expr :: exprs => expr.uses ++ usesAll exprs

end

end Expr

/-- The references that are used in a program: in the values of its bindings, in
order, and then in its entry. -/
def Program.uses (program : Program) : List Ref :=
  program.bindings.flatMap (·.value.uses) ++ program.entry.uses

inductive Visit where
  | program
  | binding (name : Ref)
  | expr (expr : Expr)
  | use (ref : Ref)
  | params (params : List Ref)
  deriving DecidableEq

namespace Visitor

/-- Notes down everything that is met, and goes on. The parameters of a lambda are
noted before what is met in its body. -/
def recorder : Visitor (Array Visit) where
  program _ walk visits := walk (visits.push .program)
  binding binding walk visits := walk (visits.push (.binding binding.name))
  expr expr walk visits := walk (visits.push (.expr expr))
  var ref visits := visits.push (.use ref)
  lambda params _ visitBody visits := visitBody (visits.push (.params params))

/-- Notes down the uses of references only. -/
def useCollector : Visitor (Array Ref) where
  var ref refs := refs.push ref

end Visitor

end SimplyTyped
