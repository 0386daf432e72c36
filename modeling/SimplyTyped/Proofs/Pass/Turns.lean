import SimplyTyped.Pass.Turns
import SimplyTyped.Proofs.Pass.Trace

/-!
# Traversals and sequences

A traversal runs the same steps as the sequence of all steps for its items, with the same
outcome. Only the time of building is another: a sequence finds all of its steps built, a
traversal builds each step when its item has its turn.
-/

set_option autoImplicit false

namespace SimplyTyped.PassT

section append

variable {m : Type → Type} [Monad m] [LawfulMonad m] {ι σ α : Type}

theorem sequence_append (passes more : List (PassT m σ α)) :
    sequence (passes ++ more) = (do
      let values ← sequence passes
      let further ← sequence more
      return values ++ further) := by
  induction passes with
  | nil => simp [sequence]
  | cons pass passes ih => simp [sequence_cons, ih]

theorem traverse_append (build : ι → m (PassT m σ α)) (items more : List ι) :
    traverse build (items ++ more) = (do
      let values ← traverse build items
      let further ← traverse build more
      return values ++ further) := by
  induction items with
  | nil => simp [traverse]
  | cons item items ih => simp [traverse_cons, ih]

end append

variable {ι σ α : Type} {build : ι → Trace (PassT Trace σ α)} {items : List ι} {state final : σ}
  {turns : List (Turn ι)} {outcome : Except Error (List α) × σ} {values : List α} {error : Error}

theorem exists_takeTurns (build : ι → Trace (PassT Trace σ α)) (items : List ι) (state : σ) :
    ∃ turns outcome, TakeTurns build items state turns outcome := by
  induction items generalizing state with
  | nil => exact ⟨_, _, .done⟩
  | cons item items ih =>
      rcases run : (build item).value.run state with ⟨ran, error | value, middle⟩
      · exact ⟨_, _, .failed run⟩
      · obtain ⟨turns, ⟨outcome, final⟩, taken⟩ := ih middle
        exact ⟨_, _, .next run taken⟩

theorem TakeTurns.run_traverse (taken : TakeTurns build items state turns outcome) :
    (traverse build items).run state =
      ⟨turns.flatMap fun turn => turn.built ++ turn.ran, outcome⟩ := by
  induction taken with
  | done => rfl
  | failed run =>
      have built := run_built_eq_iff.mpr ⟨_, run, rfl⟩
      simpa [traverse_cons] using run_bind_of_error built
  | next run _ ih =>
      have built := run_built_eq_iff.mpr ⟨_, run, rfl⟩
      simpa [traverse_cons] using run_bind_of_ok built (run_map_of_run ih)

theorem TakeTurns.run_sequence (taken : TakeTurns build items state turns outcome) :
    (sequence (items.map fun item => (build item).value)).run state =
      ⟨turns.flatMap fun turn => turn.ran, outcome⟩ := by
  induction taken with
  | done => rfl
  | failed run => simpa [sequence_cons] using run_bind_of_error run
  | next run _ ih => simpa [sequence_cons] using run_bind_of_ok run (run_map_of_run ih)

theorem TakeTurns.ends (taken : TakeTurns build items state turns outcome) :
    Ends build items state (turns.map (·.item)) outcome := by
  induction taken with
  | done => exact .finished rfl
  | @failed item items state ran error final run =>
      have split : item :: items = [] ++ item :: items := rfl
      exact .stopped split .done (congrArg Trace.value run)
  | @next item items state ran value middle turns outcome final run _ ih =>
      rw [List.map_cons]
      generalize turns.map (·.item) = had at ih
      cases ih with
      | finished length => exact .finished (congrArg (· + 1) length)
      | @stopped before failing after _ _ _ error _ split taken fails =>
          have split : item :: items = (item :: before) ++ failing :: after :=
            congrArg (item :: ·) split
          exact .stopped split (.next run taken) fails

/-- A traversal and the sequence of all steps for its items end alike, and in between they run
the same steps with the same events. What differs is the time of building: the sequence finds
its steps built, one for each item, and the traversal builds each step at the turn of its item,
so that it builds none behind the first that fails. Both go over a list as over its parts. -/
theorem traverse_agrees_with_sequence (build : ι → Trace (PassT Trace σ α)) :
    (∀ (items : List ι) (state : σ), ∃ turns outcome, TakeTurns build items state turns outcome ∧
      (traverse build items).run state =
        ⟨turns.flatMap fun turn => turn.built ++ turn.ran, outcome⟩ ∧
      (do
        let passes ← items.mapM build
        (sequence passes).run state) =
        ⟨(items.flatMap fun item => (build item).events) ++ turns.flatMap fun turn => turn.ran,
          outcome⟩ ∧
      Ends build items state (turns.map (·.item)) outcome) ∧
    (∀ items more : List ι, traverse build (items ++ more) = (do
      let values ← traverse build items
      let further ← traverse build more
      return values ++ further)) ∧
    ∀ passes more : List (PassT Trace σ α), sequence (passes ++ more) = (do
      let values ← sequence passes
      let further ← sequence more
      return values ++ further) := by
  refine ⟨fun items state => ?_, traverse_append build, sequence_append⟩
  obtain ⟨turns, outcome, taken⟩ := exists_takeTurns build items state
  have builtFirst : items.mapM build = ⟨items.flatMap fun item => (build item).events,
      items.map fun item => (build item).value⟩ :=
    Trace.ext (Trace.events_mapM build items) (Trace.value_mapM build items)
  exact ⟨turns, outcome, taken, taken.run_traverse, Trace.bind_eq builtFirst taken.run_sequence,
    taken.ends⟩

/-- The step for the third item is built by the sequence only. -/
example :
    let build (item : String × Bool) : Trace (PassT Trace Nat Nat) := do
      Trace.note (.built item.1)
      return PassT.built do
        Trace.note (.ran item.1)
        return PassT.step fun count =>
          (if item.2 then .error (.generic item.1) else .ok count, count + 1)
    let items := [("a", false), ("b", true), ("c", false)]
    (traverse build items).run 0 =
        ⟨[.built "a", .ran "a", .built "b", .ran "b"], (.error (.generic "b"), 2)⟩ ∧
      (do
        let passes ← items.mapM build
        (sequence passes).run 0) =
        ⟨[.built "a", .built "b", .built "c", .ran "a", .ran "b"],
          (.error (.generic "b"), 2)⟩ :=
  ⟨rfl, rfl⟩

end SimplyTyped.PassT
