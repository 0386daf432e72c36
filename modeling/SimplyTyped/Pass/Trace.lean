import SimplyTyped.Pass.Basic

/-!
# Traces

A trace is a value together with the events that happened on the way to it, in
order. Traced passes show when a step is built and when it is run.
-/

set_option autoImplicit false

namespace SimplyTyped

/-- Something that a labelled step lets be seen of itself. -/
inductive Event where
  | built (label : String)
  | ran (label : String)
  deriving DecidableEq

def Event.render : Event → String
  | built label => "build:" ++ label
  | ran label => "run:" ++ label

/-- A value and the events on the way to it. -/
structure Trace (α : Type) where
  events : List Event
  value : α
  deriving DecidableEq

namespace Trace

variable {α β : Type}

def note (event : Event) : Trace Unit :=
  ⟨[event], ()⟩

instance : Monad Trace where
  pure value := ⟨[], value⟩
  bind trace next :=
    let rest := next trace.value
    ⟨trace.events ++ rest.events, rest.value⟩

@[simp] theorem events_pure (value : α) : (pure value : Trace α).events = [] := rfl

@[simp] theorem value_pure (value : α) : (pure value : Trace α).value = value := rfl

@[simp] theorem events_bind (trace : Trace α) (next : α → Trace β) :
    (trace >>= next).events = trace.events ++ (next trace.value).events := rfl

@[simp] theorem value_bind (trace : Trace α) (next : α → Trace β) :
    (trace >>= next).value = (next trace.value).value := rfl

theorem ext {left right : Trace α} (events : left.events = right.events)
    (value : left.value = right.value) : left = right := by
  cases left
  cases right
  cases events
  cases value
  rfl

instance : LawfulMonad Trace :=
  LawfulMonad.mk' Trace
    (fun _ => ext (List.append_nil _) rfl)
    (fun _ _ => rfl)
    (fun _ _ _ => ext (List.append_assoc _ _ _) rfl)

end Trace

end SimplyTyped
