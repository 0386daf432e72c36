import SimplyTyped.Core.Occurrences
import SimplyTyped.Source.Tree

/-!
# Declarations of a tree in its program

A program does not show in which order its binders were declared: the value of a `let` away
from the root ends up behind its body. Read along the tree that it was made of, the binders of
a program stand in the order of the declarations, and with the types that these annotate.
-/

set_option autoImplicit false

namespace SimplyTyped

namespace Tree

mutual

/-- The binders of an expression, in the order in which the tree that it was made of declares
them. -/
def declared : Tree → Expr → List Ref
  | app callee arguments, .app _ function values =>
      callee.declared function ++ declaredAll arguments values
  | lambda _ body, .lambda _ params inner => params ++ body.declared inner
  | letIn _ value body, .app _ (.lambda _ params inner) [bound] =>
      value.declared bound ++ (params ++ body.declared inner)
  | _, _ => []

def declaredAll : List Tree → List Expr → List Ref
  | tree :: trees, expr :: exprs => tree.declared expr ++ declaredAll trees exprs
  | _, _ => []

end

/-- The binders of bindings and of the entry after them, in the order of the tree at the
root. -/
def declaredFrom (entry : Expr) : Tree → List Binding → List Ref
  | letIn _ value body, binding :: bindings =>
      value.declared binding.value ++ binding.name :: body.declaredFrom entry bindings
  | tree, _ => tree.declared entry

def declaredProgram (tree : Tree) (program : Program) : List Ref :=
  tree.declaredFrom program.entry program.bindings

theorem declaredFrom_of_splitLets {tree : Tree} (single : tree.splitLets = ([], tree))
    (entry : Expr) (bindings : List Binding) :
    tree.declaredFrom entry bindings = tree.declared entry := by
  cases tree with
  | letIn => cases single
  | _ => rfl

end Tree

/-! ## Annotations -/

mutual

/-- `KeepsAnnotations tree expr` says that `expr` has the shape of `tree`, and that its
parameters have the types they are annotated with in `tree`. The parameter that a `let`
becomes has the type of its value. -/
inductive KeepsAnnotations : Tree → Expr → Prop where
  | var {name ref} : KeepsAnnotations (.var name) (.var ref)
  | int {value} : KeepsAnnotations (.int value) (.int value)
  | bool {value} : KeepsAnnotations (.bool value) (.bool value)
  | app {callee arguments ty function values} :
      KeepsAnnotations callee function →
      AllKeepAnnotations arguments values →
      KeepsAnnotations (.app callee arguments) (.app ty function values)
  | lambda {params tree ty refs body} :
      params.map (·.ty) = refs.map (fun ref => some ref.ty) →
      KeepsAnnotations tree body →
      KeepsAnnotations (.lambda params tree) (.lambda ty refs body)
  | letIn {name tree rest ty functionTy param value body} :
      param.ty = value.ty →
      KeepsAnnotations tree value →
      KeepsAnnotations rest body →
      KeepsAnnotations (.letIn name tree rest)
        (.app ty (.lambda functionTy [param] body) [value])

inductive AllKeepAnnotations : List Tree → List Expr → Prop where
  | nil : AllKeepAnnotations [] []
  | cons {tree trees expr exprs} :
      KeepsAnnotations tree expr →
      AllKeepAnnotations trees exprs →
      AllKeepAnnotations (tree :: trees) (expr :: exprs)

end

end SimplyTyped
