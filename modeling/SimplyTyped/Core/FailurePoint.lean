import SimplyTyped.Core.Verification

/-!
# Where verification fails

The node whose own check fails, found from the outside, with the parameters of the
lambdas around it. Everything that verification meets before that node succeeds. In a
program it stands in one of the bindings or in the entry, or is a binding as a whole.
-/

set_option autoImplicit false

namespace SimplyTyped

namespace Expr

mutual

/-- `FailsAt context expr entered error` says that, in `context`, the check of one node
of `expr` fails with `error`, and that `entered` are the parameters of the lambdas in
`expr` whose body holds that node, outermost first. -/
inductive FailsAt : Context → Expr → List Ref → Error → Prop where
  | var {context ref error} :
      context.typeOf ref = .error error → FailsAt context (.var ref) [] error
  | emptyApplication {context ty callee} :
      FailsAt context (.app ty callee []) []
        (.defect (.emptyApplication (.app ty callee [])))
  | arguments {context ty callee arguments entered error} :
      SomeFailsAt context arguments entered error →
      FailsAt context (.app ty callee arguments) entered error
  | callee {context ty callee arguments argumentTys entered error} :
      arguments ≠ [] →
      (verifyAll arguments).run context = (.ok argumentTys, context) →
      FailsAt context callee entered error →
      FailsAt context (.app ty callee arguments) entered error
  | application {context ty callee arguments argumentTys calleeTy error} :
      arguments ≠ [] →
      (verifyAll arguments).run context = (.ok argumentTys, context) →
      callee.verify.run context = (.ok calleeTy, context) →
      deriveApplication ty callee arguments argumentTys calleeTy = .error error →
      FailsAt context (.app ty callee arguments) [] error
  | params {context ty params body error} :
      checkParams params = .error error →
      FailsAt context (.lambda ty params body) [] error
  | body {context ty params body entered error} :
      checkParams params = .ok () →
      FailsAt (context.enter params) body entered error →
      FailsAt context (.lambda ty params body) (params ++ entered) error
  | lambda {context ty params body bodyTy error} :
      checkParams params = .ok () →
      body.verify.run (context.enter params) = (.ok bodyTy, context.enter params) →
      deriveLambda ty params bodyTy = .error error →
      FailsAt context (.lambda ty params body) [] error

inductive SomeFailsAt : Context → List Expr → List Ref → Error → Prop where
  | head {context expr exprs entered error} :
      FailsAt context expr entered error → SomeFailsAt context (expr :: exprs) entered error
  | tail {context expr exprs ty entered error} :
      expr.verify.run context = (.ok ty, context) →
      SomeFailsAt context exprs entered error →
      SomeFailsAt context (expr :: exprs) entered error

end

end Expr

/-- `FailsAt context program verified entered error` says that, in `context`, one check of
`program` fails with `error`, that `verified` are the names of the bindings before it, and
that `entered` are the parameters of the lambdas around it, outermost first. -/
inductive Program.FailsAt : Context → Program → List Ref → List Ref → Error → Prop where
  | entry {context expr entered error} :
      expr.FailsAt context entered error → FailsAt context ⟨[], expr⟩ [] entered error
  | value {context binding bindings entry entered error} :
      binding.value.FailsAt context entered error →
      FailsAt context ⟨binding :: bindings, entry⟩ [] entered error
  | name {context binding bindings entry derived error} :
      binding.value.verify.run context = (.ok derived, context) →
      binding.check derived = .error error →
      FailsAt context ⟨binding :: bindings, entry⟩ [] [] error
  | later {context binding bindings entry verified entered error} :
      binding.verify.run context = (.ok (), context.addGlobal binding.name) →
      FailsAt (context.addGlobal binding.name) ⟨bindings, entry⟩ verified entered error →
      FailsAt context ⟨binding :: bindings, entry⟩ (binding.name :: verified) entered error

end SimplyTyped
