import SimplyTyped.Core.Expr
import SimplyTyped.Ty.Application

/-!
# Annotated core programs

What the annotations of a program say about each other while some names may still be
unresolved. An application that depends on an unresolved name is of unknown type; all
other annotations follow from those below them.
-/

set_option autoImplicit false

namespace SimplyTyped

namespace Expr

mutual

/-- The annotations in an expression agree with each other, and every resolved
reference in it is one of `visible`. -/
def Annotated (visible : List Ref) : Expr → Prop
  | var ref => ref.scope = .unresolved ∨ ref ∈ visible
  | int _ | bool _ => True
  | app ty callee arguments =>
      arguments ≠ [] ∧ callee.Annotated visible ∧ AllAnnotated visible arguments ∧
        if callee.ty.Known ∧ ∀ argument ∈ arguments, argument.ty.Known then
          callee.ty.apply (arguments.map Expr.ty) = .ok ty
        else ty = .unknown
  | lambda ty params body =>
      params ≠ [] ∧ (∀ param ∈ params, param.scope = .param) ∧
        body.Annotated (params ++ visible) ∧ ty = .arrows (params.map (·.ty)) body.ty

def AllAnnotated (visible : List Ref) : List Expr → Prop
  | [] => True
  | expr :: exprs => expr.Annotated visible ∧ AllAnnotated visible exprs

end

end Expr

/-- The annotations in bindings agree with each other, where the names of the bindings
so far are `visible`, and so do those in the expression after them. -/
def AnnotatedFrom (visible : List Ref) (entry : Expr) : List Binding → Prop
  | [] => entry.Annotated visible
  | binding :: bindings =>
      binding.name.scope = .global ∧ binding.name.ty = binding.value.ty ∧
        binding.value.Annotated visible ∧ AnnotatedFrom (binding.name :: visible) entry bindings

def Program.Annotated (program : Program) : Prop :=
  AnnotatedFrom [] program.entry program.bindings

end SimplyTyped
