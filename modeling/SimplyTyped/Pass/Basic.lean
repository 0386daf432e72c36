import SimplyTyped.Error.Basic

/-!
# Passes

A pass is a computation over a state of its own that gives a value or fails. The
first failure ends it and leaves the state as it then is. A pass may have effects
besides, in a monad `m`, and then building a step can have effects too: where a
combinator builds a step late, it takes it as an action of `m` that yields the step.

A session runs one pass after another on the same state. A failure ends its own pass
only: the next pass goes on from the state that the failure left.
-/

set_option autoImplicit false

namespace SimplyTyped

/-- A pass over states `σ` that yields an `α` or an error, with effects in `m`. The
state outlives a failure. -/
abbrev PassT (m : Type → Type) (σ α : Type) : Type :=
  ExceptT Error (StateT σ m) α

/-- A pass without further effects. -/
abbrev Pass (σ α : Type) : Type :=
  PassT Id σ α

namespace PassT

variable {m : Type → Type} [Monad m] {σ α β ι : Type}

/-- Runs a pass on a state that the caller holds. -/
def run (pass : PassT m σ α) (state : σ) : m (Except Error α × σ) :=
  StateT.run (ExceptT.run pass) state

/-- Runs a pass for its value. The final state is dropped. -/
def evaluate (pass : PassT m σ α) (state : σ) : m (Except Error α) := do
  let (outcome, _) ← pass.run state
  return outcome

/-- Runs a pass for its final state, which is given out only if the pass succeeds. -/
def execute (pass : PassT m σ α) (state : σ) : m (Except Error σ) := do
  let (outcome, final) ← pass.run state
  return outcome.map fun _ => final

/-- A step given by what it does to the state. -/
def step (f : σ → Except Error α × σ) : PassT m σ α :=
  ExceptT.mk fun state => pure (f state)

def get : PassT m σ σ :=
  step fun state => (.ok state, state)

/-- A step that reads a part of the state, or what follows from it. -/
def gets (f : σ → α) : PassT m σ α :=
  step fun state => (.ok (f state), state)

def put (state : σ) : PassT m σ Unit :=
  step fun _ => (.ok (), state)

def modify (f : σ → σ) : PassT m σ Unit :=
  step fun state => (.ok (), f state)

/-- A step that reports an outcome that is known already. -/
def lift (outcome : Except Error α) : PassT m σ α :=
  step fun state => (outcome, state)

/-- Builds a step and runs it at once. -/
def built (build : m (PassT m σ α)) : PassT m σ α :=
  ExceptT.mk fun state => do
    let pass ← build
    pass.run state

/-- Hands the value of a pass to a continuation, which builds the next step only
then. -/
def andThen (pass : PassT m σ α) (next : α → m (PassT m σ β)) : PassT m σ β := do
  let value ← pass
  built (next value)

/-- Runs two steps, both of which are built already, for the value of the second. -/
def followedBy (pass : PassT m σ α) (next : PassT m σ β) : PassT m σ β := do
  let _ ← pass
  next

/-- Runs steps, all of which are built already, in order, and collects their values. -/
def sequence : List (PassT m σ α) → PassT m σ (List α)
  | [] => pure []
  | pass :: passes => do
      let value ← pass
      let values ← sequence passes
      return value :: values

/-- Builds a step for each item just before it is run, and collects the values. -/
def traverse (build : ι → m (PassT m σ α)) : List ι → PassT m σ (List α)
  | [] => pure []
  | item :: items => do
      let value ← built (build item)
      let values ← traverse build items
      return value :: values

end PassT

namespace Pass

variable {σ α β ι : Type}

/-- Runs a pass on a state that the caller holds. -/
def run (pass : Pass σ α) (state : σ) : Except Error α × σ :=
  Id.run (PassT.run pass state)

def evaluate (pass : Pass σ α) (state : σ) : Except Error α :=
  Id.run (PassT.evaluate pass state)

def execute (pass : Pass σ α) (state : σ) : Except Error σ :=
  Id.run (PassT.execute pass state)

/-- The outcome of each pass of a session, with the state that it leaves. -/
def session : List (Pass σ α) → σ → List (Except Error α × σ)
  | [], _ => []
  | pass :: passes, state =>
      let (outcome, next) := pass.run state
      (outcome, next) :: session passes next

end Pass

end SimplyTyped
