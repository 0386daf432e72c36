import SimplyTyped.Core.Occurrences
import SimplyTyped.Elaboration.Session

/-!
# Requests for indices

Every binder asks the environment for an index, and gets it at once. Here are the references
that come of these requests, in the order in which they are made, also where what is being
elaborated fails later: an index that was handed out is never taken back.
-/

set_option autoImplicit false

namespace SimplyTyped

namespace Pass

variable {σ α β : Type}

/-- What follows on a run. Nothing follows on a failure. -/
def onSuccess (pass : Pass σ α) (state : σ) (next : α → σ → List β) : List β :=
  match pass.run state with
  | (.ok value, final) => next value final
  | (.error _, _) => []

variable {pass : Pass σ α} {state final : σ} (next : α → σ → List β)

theorem onSuccess_of_ok {value : α} (run : pass.run state = (.ok value, final)) :
    pass.onSuccess state next = next value final := by
  rw [onSuccess, run]

theorem onSuccess_of_error {error : Error} (run : pass.run state = (.error error, final)) :
    pass.onSuccess state next = [] := by
  rw [onSuccess, run]

end Pass

namespace Tree

mutual

/-- The references for which indices are asked while a tree is elaborated, the last ones
before a failure included. -/
def requests : Tree → Environment → List Ref
  | var _, _ | int _, _ | bool _, _ => []
  | app callee arguments, environment =>
      if arguments.isEmpty then []
      else
        callee.requests environment ++
          callee.elaborate.onSuccess environment fun _ middle => requestsAll arguments middle
  | lambda params body, environment =>
      match Param.checkAll params with
      | .ok annotations =>
          environment.paramRefs annotations ++ body.requests (environment.withParams annotations)
      | .error _ => []
  | letIn name value body, environment =>
      value.requests environment ++
        value.elaborate.onSuccess environment fun expr middle =>
          middle.paramRef name expr.ty :: body.requests (middle.withParams [(name, expr.ty)])

def requestsAll : List Tree → Environment → List Ref
  | [], _ => []
  | tree :: trees, environment =>
      tree.requests environment ++
        tree.elaborate.onSuccess environment fun _ middle => requestsAll trees middle

end

/-- The same for a tree at the root, where a `let` binds a global. -/
def programRequests : Tree → Environment → List Ref
  | letIn name value body, environment =>
      value.requests environment ++
        value.elaborate.onSuccess environment fun expr middle =>
          middle.globalRef name expr.ty :: body.programRequests (middle.withGlobal name expr.ty)
  | tree, environment => tree.requests environment

theorem programRequests_of_splitLets {tree : Tree} (single : tree.splitLets = ([], tree))
    (environment : Environment) :
    tree.programRequests environment = tree.requests environment := by
  cases tree with
  | letIn => cases single
  | _ => rfl

end Tree

namespace Environment

/-- A parameter that is bound outside all lambdas uses up an index, although this fails. -/
def Step.requests : Step → Environment → List Ref
  | .bindGlobal name ty, environment => [environment.globalRef name ty]
  | .bindParam name ty, environment => [environment.paramRef name ty]
  | .elaborate tree, environment => tree.programRequests environment
  | .enter, _ | .leave, _ | .resolve _, _ | .policy, _ => []

def requests (environment : Environment) : List Step → List Ref
  | [] => []
  | step :: steps => step.requests environment ++ (environment.after [step]).requests steps

def Reply.binders : Reply → List Ref
  | .bound ref => [ref]
  | .elaborated program => program.binders
  | .done | .resolved _ | .policy _ => []

/-- The binders that the successful ones among steps give out. -/
def binders (outcomes : List (Except Error Reply × Environment)) : List Ref :=
  outcomes.flatMap fun outcome =>
    match outcome.1 with
    | .ok reply => reply.binders
    | .error _ => []

end Environment

/-- The references of each name carry the indices from 0 on, in this order. -/
def NumberedInOrder (refs : List Ref) : Prop :=
  ∀ name, (refs.filter (·.name = name)).map (·.index.toNat) =
    List.range ((refs.map (·.name)).count name)

end SimplyTyped
