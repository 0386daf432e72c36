import SimplyTyped.Proofs.Core.Verification

/-!
# The outcome of verification

A check that succeeds leaves its context as it was, so the outcome of verification is that of
a checker without a state, which is handed its context on the way down.
-/

set_option autoImplicit false

namespace SimplyTyped

namespace Expr

theorem HasType.evaluate_verify {context : Context} {expr : Expr} {ty : Ty}
    (typing : HasType context expr ty) : expr.verify.evaluate context = .ok ty := by
  rw [Pass.evaluate_eq, typing.run_verify]

theorem HaveTypes.evaluate_verifyAll {context : Context} {exprs : List Expr} {tys : List Ty}
    (typing : HaveTypes context exprs tys) : (verifyAll exprs).evaluate context = .ok tys := by
  rw [Pass.evaluate_eq, typing.run_verifyAll]

theorem evaluate_verify_app {ty : Ty} {callee : Expr} {arguments : List Expr}
    (some : arguments ≠ []) (context : Context) :
    (app ty callee arguments).verify.evaluate context = (do
      let argumentTys ← (verifyAll arguments).evaluate context
      let calleeTy ← callee.verify.evaluate context
      deriveApplication ty callee arguments argumentTys calleeTy) := by
  rw [verify, if_neg (by simpa using some)]
  rw [Pass.evaluate_bind fun _ _ run => (haveTypes_of_run_verifyAll run).2]
  refine bind_congr fun argumentTys => ?_
  rw [Pass.evaluate_bind fun _ _ run => (hasType_of_run_verify run).2]
  rfl

theorem evaluate_verify_lambda (ty : Ty) (params : List Ref) (body : Expr) (context : Context) :
    (lambda ty params body).verify.evaluate context = (do
      checkParams params
      let bodyTy ← body.verify.evaluate (context.enter params)
      deriveLambda ty params bodyTy) := by
  have leaves : ∀ checked final, Pass.run (PassT.lift (checkParams params)) context =
      (.ok checked, final) → final = context := fun _ _ run => (Prod.mk.inj run).2.symm
  rw [verify, Pass.evaluate_bind leaves]
  refine bind_congr fun _ => ?_
  have entered : Pass.evaluate (do
        let depth ← PassT.gets (·.locals.length)
        PassT.modify (Context.enter params)
        let bodyTy ← body.verify
        PassT.modify (Context.leave depth)
        PassT.lift (deriveLambda ty params bodyTy)) context =
      Pass.evaluate (do
        let bodyTy ← body.verify
        PassT.modify (Context.leave context.locals.length)
        PassT.lift (deriveLambda ty params bodyTy)) (context.enter params) := rfl
  rw [entered, Pass.evaluate_bind fun _ _ run => (hasType_of_run_verify run).2]
  rfl

theorem evaluate_verifyAll_cons (expr : Expr) (exprs : List Expr) (context : Context) :
    (verifyAll (expr :: exprs)).evaluate context = (do
      let ty ← expr.verify.evaluate context
      let tys ← (verifyAll exprs).evaluate context
      return ty :: tys) := by
  rw [verifyAll, Pass.evaluate_bind fun _ _ run => (hasType_of_run_verify run).2]
  refine bind_congr fun ty => ?_
  rw [Pass.evaluate_bind fun _ _ run => (haveTypes_of_run_verifyAll run).2]
  rfl

end Expr

theorem Binding.evaluate_verify (binding : Binding) (context : Context) :
    binding.verify.evaluate context = (do
      let derived ← binding.value.verify.evaluate context
      binding.check derived) := by
  rw [verify, Pass.evaluate_bind fun _ _ run => (Expr.hasType_of_run_verify run).2]
  refine bind_congr fun derived => ?_
  rw [Pass.evaluate_eq, Pass.run_bind, Pass.run_lift]
  cases binding.check derived <;> rfl

theorem Program.evaluate_verifyPass_cons (binding : Binding) (bindings : List Binding)
    (entry : Expr) (context : Context) :
    (verifyPass ⟨binding :: bindings, entry⟩).evaluate context = (do
      binding.verify.evaluate context
      (verifyPass ⟨bindings, entry⟩).evaluate (context.addGlobal binding.name)) := by
  rw [verifyPass_cons, Pass.evaluate_bind fun _ _ run => (Binding.run_verify_eq_ok_iff.mp run).2.2]

end SimplyTyped
