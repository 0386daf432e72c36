import SimplyTyped.Pass.Trace

/-!
# Reaching a step of a pass

Which step of a pass is about to run, how the continuations on the way there were called,
and what has happened since the pass began to run.
-/

set_option autoImplicit false

namespace SimplyTyped.PassT

variable {σ β : Type}

/-- `step.Reaches point pass state events` says that a run of `pass` from `state` comes to
run `step` on `point`, with `events` on the way. Whatever runs before `step` succeeds. -/
inductive Reaches (step : PassT Trace σ β) (point : σ) :
    {α : Type} → PassT Trace σ α → σ → List Event → Prop where
  | here : Reaches step point step point []
  | map {α γ : Type} {f : α → γ} {pass state events} :
      Reaches step point pass state events → Reaches step point (f <$> pass) state events
  | first {α γ : Type} {pass : PassT Trace σ α} {next : PassT Trace σ γ} {state events} :
      Reaches step point pass state events → Reaches step point (pass.followedBy next) state events
  | second {α γ : Type} {pass : PassT Trace σ α} {next : PassT Trace σ γ}
      {state middle value earlier events} :
      pass.run state = ⟨earlier, (.ok value, middle)⟩ →
      Reaches step point next middle events →
      Reaches step point (pass.followedBy next) state (earlier ++ events)
  | handed {α γ : Type} {pass : PassT Trace σ α} {next : α → Trace (PassT Trace σ γ)}
      {state events} :
      Reaches step point pass state events → Reaches step point (pass.andThen next) state events
  /-- The continuation is built now, and its building shows. -/
  | continued {α γ : Type} {pass : PassT Trace σ α} {next : α → Trace (PassT Trace σ γ)}
      {state middle value earlier events} :
      pass.run state = ⟨earlier, (.ok value, middle)⟩ →
      Reaches step point (next value).value middle events →
      Reaches step point (pass.andThen next) state (earlier ++ (next value).events ++ events)
  | sequenceHead {α : Type} {pass : PassT Trace σ α} {passes state events} :
      Reaches step point pass state events →
      Reaches step point (sequence (pass :: passes)) state events
  | sequenceTail {α : Type} {pass : PassT Trace σ α} {passes state middle value earlier events} :
      pass.run state = ⟨earlier, (.ok value, middle)⟩ →
      Reaches step point (sequence passes) middle events →
      Reaches step point (sequence (pass :: passes)) state (earlier ++ events)
  /-- The step for an item is built now, and its building shows. -/
  | traverseHead {ι α : Type} {build : ι → Trace (PassT Trace σ α)} {item items state events} :
      Reaches step point (build item).value state events →
      Reaches step point (traverse build (item :: items)) state ((build item).events ++ events)
  | traverseTail {ι α : Type} {build : ι → Trace (PassT Trace σ α)}
      {item items state middle value earlier events} :
      (build item).value.run state = ⟨earlier, (.ok value, middle)⟩ →
      Reaches step point (traverse build items) middle events →
      Reaches step point (traverse build (item :: items)) state
        ((build item).events ++ earlier ++ events)

end SimplyTyped.PassT
