import SimplyTyped.Elaboration.Basic

/-!
# Where elaboration fails

The subtree whose own check fails, found from the outside, with the number of binders
around it that have a frame: lambdas, and `let`s away from the root. Everything that
elaboration meets before that subtree succeeds. A tree at the root fails in the value of one
of its `let`s or in its entry.
-/

set_option autoImplicit false

namespace SimplyTyped.Tree

mutual

/-- `FailsAt environment tree depth error` says that, from `environment`, the check of
one subtree of `tree` fails with `error`, and that it stands in the bodies of `depth`
lambdas and `let`s of `tree`. -/
inductive FailsAt : Environment → Tree → Nat → Error → Prop where
  | var {environment name error} :
      environment.lookup name = .error error → FailsAt environment (.var name) 0 error
  | emptyApplication {environment callee} :
      FailsAt environment (.app callee []) 0 (.malformed .emptyApplication)
  | callee {environment callee arguments depth error} :
      arguments ≠ [] →
      FailsAt environment callee depth error →
      FailsAt environment (.app callee arguments) depth error
  | arguments {environment middle callee arguments expr depth error} :
      callee.elaborate.run environment = (.ok expr, middle) →
      SomeFailsAt middle arguments depth error →
      FailsAt environment (.app callee arguments) depth error
  | application {environment middle final callee arguments expr exprs error} :
      arguments ≠ [] →
      callee.elaborate.run environment = (.ok expr, middle) →
      (elaborateAll arguments).run middle = (.ok exprs, final) →
      expr.applied exprs = .error error →
      FailsAt environment (.app callee arguments) 0 error
  | params {environment params body error} :
      Param.checkAll params = .error error →
      FailsAt environment (.lambda params body) 0 error
  | body {environment inner params annotations body refs depth error} :
      Param.checkAll params = .ok annotations →
      (Environment.bindParams annotations).run environment.enter = (.ok refs, inner) →
      FailsAt inner body depth error →
      FailsAt environment (.lambda params body) (depth + 1) error
  | letValue {environment name value body depth error} :
      FailsAt environment value depth error →
      FailsAt environment (.letIn name value body) depth error
  | letBody {environment middle inner name value body expr ref depth error} :
      value.elaborate.run environment = (.ok expr, middle) →
      (Environment.bindParam name expr.ty).run middle.enter = (.ok ref, inner) →
      FailsAt inner body depth error →
      FailsAt environment (.letIn name value body) (depth + 1) error

inductive SomeFailsAt : Environment → List Tree → Nat → Error → Prop where
  | head {environment tree trees depth error} :
      FailsAt environment tree depth error → SomeFailsAt environment (tree :: trees) depth error
  | tail {environment middle tree trees expr depth error} :
      tree.elaborate.run environment = (.ok expr, middle) →
      SomeFailsAt middle trees depth error →
      SomeFailsAt environment (tree :: trees) depth error

end

/-- `FailsAtRoot environment tree bound depth error` says the same of a tree at the root, where
`bound` are the references of the `let`s that are bound before, the first one first. -/
inductive FailsAtRoot : Environment → Tree → List Ref → Nat → Error → Prop where
  | entry {environment tree depth error} :
      tree.splitLets = ([], tree) →
      FailsAt environment tree depth error →
      FailsAtRoot environment tree [] depth error
  | value {environment name value body depth error} :
      FailsAt environment value depth error →
      FailsAtRoot environment (.letIn name value body) [] depth error
  | later {environment middle next name value body expr ref bound depth error} :
      value.elaborate.run environment = (.ok expr, middle) →
      (Environment.bindGlobal name expr.ty).run middle = (.ok ref, next) →
      FailsAtRoot next body bound depth error →
      FailsAtRoot environment (.letIn name value body) (ref :: bound) depth error

end SimplyTyped.Tree
