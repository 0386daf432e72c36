import SimplyTyped.Source.Tree

/-!
# Typing of source trees

The rules of the simply typed calculus, without an algorithm. All types that appear
are known: a tree with a name that has no binder has no type.
-/

set_option autoImplicit false

namespace SimplyTyped.Tree

mutual

/-- `HasType context tree ty` says that `tree` has type `ty` where the names in scope
have the types in `context`, the nearest declaration first. -/
inductive HasType : List (Name × Ty) → Tree → Ty → Prop where
  | var {context name ty} :
      context.lookup name = some ty → HasType context (.var name) ty
  | int {context value} : HasType context (.int value) .int
  | bool {context value} : HasType context (.bool value) .bool
  | app {context callee arguments argumentTys ty} :
      arguments ≠ [] →
      HasType context callee (.arrows argumentTys ty) →
      HaveTypes context arguments argumentTys →
      HasType context (.app callee arguments) ty
  /-- Parameters are annotated with known types, and their names differ. -/
  | lambda {context : List (Name × Ty)} {annotations : List (Name × Ty)} {body ty} :
      annotations ≠ [] →
      (annotations.map Prod.fst).Nodup →
      (∀ param ∈ annotations, param.2.Known) →
      HasType (annotations ++ context) body ty →
      HasType context
        (.lambda (annotations.map fun param => ⟨param.1, some param.2⟩) body)
        (.arrows (annotations.map Prod.snd) ty)
  /-- The name is in scope in the body and not in the value. -/
  | letIn {context name value body valueTy ty} :
      HasType context value valueTy →
      HasType ((name, valueTy) :: context) body ty →
      HasType context (.letIn name value body) ty

inductive HaveTypes : List (Name × Ty) → List Tree → List Ty → Prop where
  | nil {context} : HaveTypes context [] []
  | cons {context tree trees ty tys} :
      HasType context tree ty →
      HaveTypes context trees tys →
      HaveTypes context (tree :: trees) (ty :: tys)

end

end SimplyTyped.Tree
