import SimplyTyped.Core.Traversal

/-!
# Observers

An observer is a visitor all of whose callbacks act and go on: each runs the walk that it
receives exactly once, and may change the state before it and after it. What an observer
meets can be noted down beside its own state.
-/

set_option autoImplicit false

namespace SimplyTyped

/-- What a callback does around the walk that it goes on with. After the walk it still knows
the state that it was called in. -/
structure Around (σ : Type) where
  before : σ → σ := id
  after : (called walked : σ) → σ := fun _ walked => walked

namespace Around

variable {σ : Type}

def run (around : Around σ) (walk : σ → σ) (state : σ) : σ :=
  around.after state (walk (around.before state))

/-- The same on a state that carries something else along, which is left to the walk. -/
def beside (around : Around σ) (τ : Type) : Around (σ × τ) where
  before state := (around.before state.1, state.2)
  after called walked := (around.after called.1 walked.1, walked.2)

end Around

/-- What is done around each kind of node, and at each use of a reference. -/
structure Observer (σ : Type) where
  program : Program → Around σ := fun _ => {}
  binding : Binding → Around σ := fun _ => {}
  expr : Expr → Around σ := fun _ => {}
  var : Ref → σ → σ := fun _ => id
  lambda : List Ref → Expr → Around σ := fun _ _ => {}

namespace Observer

variable {σ : Type}

def visitor (observer : Observer σ) : Visitor σ where
  program program := (observer.program program).run
  binding binding := (observer.binding binding).run
  expr expr := (observer.expr expr).run
  var := observer.var
  lambda params body := (observer.lambda params body).run

/-- The observer with a list beside its state, to which each use of a reference is added when
its callback runs. -/
def noting (observer : Observer σ) : Observer (σ × List Ref) where
  program program := (observer.program program).beside (List Ref)
  binding binding := (observer.binding binding).beside (List Ref)
  expr expr := (observer.expr expr).beside (List Ref)
  var ref state := (observer.var ref state.1, state.2 ++ [ref])
  lambda params body := (observer.lambda params body).beside (List Ref)

end Observer

end SimplyTyped
