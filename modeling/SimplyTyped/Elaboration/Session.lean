import SimplyTyped.Elaboration.Basic

/-!
# Histories of an environment

Everything that can be done to an environment from outside, as data, so that whole
histories of an environment can be spoken of: those in which frames are opened and closed
like brackets, and what the steps of a history bring into sight.
-/

set_option autoImplicit false

namespace SimplyTyped.Environment

/-- One thing to do to an environment, or to ask of it. -/
inductive Step where
  | enter
  | leave
  | bindGlobal (name : Name) (ty : Ty)
  | bindParam (name : Name) (ty : Ty)
  | resolve (name : Name)
  | policy
  | elaborate (tree : Tree)
  deriving DecidableEq

inductive Reply where
  | done
  | bound (ref : Ref)
  | resolved (ref : Option Ref)
  | policy (policy : Policy)
  | elaborated (program : Program)
  deriving DecidableEq

def Step.pass : Step → Pass Environment Reply
  | .enter => (fun _ => .done) <$> PassT.modify Environment.enter
  | .leave => (fun _ => .done) <$> PassT.modify Environment.leave
  | .bindGlobal name ty => .bound <$> Environment.bindGlobal name ty
  | .bindParam name ty => .bound <$> Environment.bindParam name ty
  | .resolve name => .resolved <$> PassT.gets (·.resolve? name)
  | .policy => .policy <$> PassT.gets Environment.policy
  | .elaborate tree => .elaborated <$> tree.elaborateProgram

/-! ## Balanced runs of steps

Every frame that is opened in them is closed again, and no frame is closed that was open
before. -/

/-- Each `enter` has its `leave`; all other steps may stand anywhere. -/
inductive Balanced : List Step → Prop where
  | nil : Balanced []
  | bracket {inner rest : List Step} :
      Balanced inner → Balanced rest → Balanced (.enter :: inner ++ .leave :: rest)
  | step {step : Step} {rest : List Step} :
      step ≠ .enter → step ≠ .leave → Balanced rest → Balanced (step :: rest)

/-- The environment after steps, whether they succeed or not. -/
def after (environment : Environment) (steps : List Step) : Environment :=
  steps.foldl (fun environment step => (step.pass.run environment).2) environment

/-- Where the step is to elaborate a tree, this succeeds. -/
def Step.TreeSucceeds : Step → Environment → Prop
  | .elaborate tree, environment =>
      ∃ program, (tree.elaborateProgram.run environment).1 = .ok program
  | _, _ => True

/-- No tree among the steps fails to be elaborated. -/
def TreesSucceed (environment : Environment) : List Step → Prop
  | [] => True
  | step :: steps =>
      step.TreeSucceeds environment ∧ (environment.after [step]).TreesSucceed steps

/-! ## What steps bring into sight

Told from the steps and from what they report: the globals that are bound from a point on, and
the parameters in each of the frames that were opened since and are not closed yet. Everything
is listed in the order in which it was bound. -/

/-- A tree brings the `let`s at its root into sight. What it binds further in is out of sight
when it has been elaborated. -/
def Reply.introduced : Reply → List Ref
  | .bound ref => [ref]
  | .elaborated program => program.bindings.map (·.name)
  | .done | .resolved _ | .policy _ => []

def Step.introduced (step : Step) (environment : Environment) : List Ref :=
  match (step.pass.run environment).1 with
  | .ok reply => reply.introduced
  | .error _ => []

def introduced (environment : Environment) : List Step → List Ref
  | [] => []
  | step :: steps => step.introduced environment ++ (environment.after [step]).introduced steps

def boundAs (scope : Scope) (refs : List Ref) : List Ref :=
  refs.filter (·.scope = scope)

/-- `Fills environment steps refs` says that the steps bind the parameters `refs` in the frame
in which they begin, and leave it the innermost one. What is bound between an `enter` and its
`leave` belongs to a frame of its own. -/
inductive Fills : Environment → List Step → List Ref → Prop where
  | nil {environment} : Fills environment [] []
  | bracket {environment inner hidden rest refs} :
      Fills environment.enter inner hidden →
      Fills (environment.after (.enter :: inner ++ [.leave])) rest refs →
      Fills environment (.enter :: inner ++ .leave :: rest) refs
  | step {environment step rest refs} :
      step ≠ .enter → step ≠ .leave →
      Fills (environment.after [step]) rest refs →
      Fills environment (step :: rest) (boundAs .param (step.introduced environment) ++ refs)

/-- `StillOpen environment steps frames` says that the steps begin in a new frame, and that this
frame and those opened in it which are still open hold `frames`, the innermost one first. -/
inductive StillOpen : Environment → List Step → List (List Ref) → Prop where
  | inside {environment steps refs} :
      Fills environment steps refs → StillOpen environment steps [refs]
  | deeper {environment steps refs later frames} :
      Fills environment steps refs →
      StillOpen (environment.after steps).enter later frames →
      StillOpen environment (steps ++ .enter :: later) (frames ++ [refs])

/-- Of the references of a name the one bound last. -/
def latest (name : Name) (refs : List Ref) : Option Ref :=
  (refs.filter (·.name = name)).getLast?

end SimplyTyped.Environment
