import SimplyTyped.Core.Verification

/-!
# Well-typed core programs

When the annotations of a core program are right, said without an algorithm. No rule
mentions an unknown type: where the rules apply, every type is known.
-/

set_option autoImplicit false

namespace SimplyTyped

namespace Expr

mutual

/-- `HasType context expr ty` says that `expr` is annotated rightly throughout and has
type `ty` where the references in `context` are visible. -/
inductive HasType : Context → Expr → Ty → Prop where
  | param {context ref} :
      ref.scope = .param → ref ∈ context.locals → ref.ty.Known →
      HasType context (.var ref) ref.ty
  | global {context ref} :
      ref.scope = .global → ref ∈ context.globals → ref.ty.Known →
      HasType context (.var ref) ref.ty
  | int {context value} : HasType context (.int value) .int
  | bool {context value} : HasType context (.bool value) .bool
  | app {context callee arguments argumentTys ty} :
      arguments ≠ [] →
      HasType context callee (.arrows argumentTys ty) →
      HaveTypes context arguments argumentTys →
      HasType context (.app ty callee arguments) ty
  | lambda {context params body bodyTy} :
      params ≠ [] →
      (∀ param ∈ params, param.scope = .param ∧ param.ty.Known) →
      HasType (context.enter params) body bodyTy →
      HasType context (.lambda (.arrows (params.map (·.ty)) bodyTy) params body)
        (.arrows (params.map (·.ty)) bodyTy)

inductive HaveTypes : Context → List Expr → List Ty → Prop where
  | nil {context} : HaveTypes context [] []
  | cons {context expr exprs ty tys} :
      HasType context expr ty →
      HaveTypes context exprs tys →
      HaveTypes context (expr :: exprs) (ty :: tys)

end

end Expr

/-- A program is well typed where its bindings are, each in sight of the names of the
ones before it, and its entry has the type of the program. -/
inductive Program.HasType : Context → Program → Ty → Prop where
  | entry {context expr ty} :
      expr.HasType context ty → HasType context ⟨[], expr⟩ ty
  /-- The name of a binding is global and has exactly the type of the value. -/
  | binding {context binding bindings entry ty} :
      binding.name.scope = .global →
      binding.value.HasType context binding.name.ty →
      HasType (context.addGlobal binding.name) ⟨bindings, entry⟩ ty →
      HasType context ⟨binding :: bindings, entry⟩ ty

end SimplyTyped
