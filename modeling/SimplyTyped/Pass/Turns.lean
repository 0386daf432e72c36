import SimplyTyped.Pass.Trace

/-!
# Turns

Where a step is run for each item of a list, every item has its turn until one of them fails.
A turn keeps the events of building a step apart from those of running it.
-/

set_option autoImplicit false

namespace SimplyTyped

/-- An item whose step was built and run, with the events of both. -/
structure Turn (ι : Type) where
  item : ι
  built : List Event
  ran : List Event

namespace PassT

variable {ι σ α : Type}

/-- `TakeTurns build items state turns outcome` says that the steps for the items are run one
after another, each on the state that the one before it leaves. The first failure is that of
all, and the items behind it have no turn. -/
inductive TakeTurns (build : ι → Trace (PassT Trace σ α)) :
    List ι → σ → List (Turn ι) → Except Error (List α) × σ → Prop where
  | done {state} : TakeTurns build [] state [] (.ok [], state)
  | failed {item items state ran error final} :
      (build item).value.run state = ⟨ran, (.error error, final)⟩ →
      TakeTurns build (item :: items) state [⟨item, (build item).events, ran⟩]
        (.error error, final)
  | next {item items state ran value middle turns outcome final} :
      (build item).value.run state = ⟨ran, (.ok value, middle)⟩ →
      TakeTurns build items middle turns (outcome, final) →
      TakeTurns build (item :: items) state (⟨item, (build item).events, ran⟩ :: turns)
        (outcome.map (value :: ·), final)

/-- `Ends build items state had outcome` says how far the items come, `had` being those that have
a turn. -/
inductive Ends (build : ι → Trace (PassT Trace σ α)) (items : List ι) (state : σ) :
    List ι → Except Error (List α) × σ → Prop where
  | finished {values final} :
      values.length = items.length → Ends build items state items (.ok values, final)
  /-- All steps before it succeed, and the next one is the first to fail. -/
  | stopped {before failing after turns values middle error final} :
      items = before ++ failing :: after →
      TakeTurns build before state turns (.ok values, middle) →
      ((build failing).value.run middle).value = (.error error, final) →
      Ends build items state (before ++ [failing]) (.error error, final)

end PassT

end SimplyTyped
