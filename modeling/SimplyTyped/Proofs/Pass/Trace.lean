import SimplyTyped.Pass.Lemmas
import SimplyTyped.Pass.Trace

/-!
# How traced passes run

What running does where events are noted on the way: the events of a first step come before
those of the next, and after a failure there are none.
-/

set_option autoImplicit false

namespace SimplyTyped

namespace Trace

variable {α β : Type} {events later : List Event} {value : α} {result : β}

theorem bind_eq {trace : Trace α} {next : α → Trace β} (first : trace = ⟨events, value⟩)
    (second : next value = ⟨later, result⟩) : trace >>= next = ⟨events ++ later, result⟩ := by
  rw [first]
  change (⟨events ++ (next value).events, (next value).value⟩ : Trace β) = _
  rw [second]

/-- What follows without events of its own leaves the events as they are. -/
theorem bind_eq_of_silent {trace : Trace α} {next : α → Trace β}
    (first : trace = ⟨events, value⟩) (second : next value = ⟨[], result⟩) :
    trace >>= next = ⟨events, result⟩ := by
  rw [bind_eq first second, List.append_nil]

@[simp] theorem events_map (f : α → β) (trace : Trace α) :
    (f <$> trace).events = trace.events :=
  List.append_nil _

@[simp] theorem value_map (f : α → β) (trace : Trace α) :
    (f <$> trace).value = f trace.value := rfl

@[simp] theorem events_mapM {ι : Type} (f : ι → Trace α) (items : List ι) :
    (items.mapM f).events = items.flatMap fun item => (f item).events := by
  induction items with
  | nil => rfl
  | cons item items ih => simp [List.mapM_cons, ih]

@[simp] theorem value_mapM {ι : Type} (f : ι → Trace α) (items : List ι) :
    (items.mapM f).value = items.map fun item => (f item).value := by
  induction items with
  | nil => rfl
  | cons item items ih => simp [List.mapM_cons, ih]

end Trace

namespace PassT

section recursion

variable {m : Type → Type} [Monad m] [LawfulMonad m] {ι σ α : Type}

theorem sequence_cons (pass : PassT m σ α) (passes : List (PassT m σ α)) :
    sequence (pass :: passes) = (do
      let value ← pass
      (value :: ·) <$> sequence passes) := by
  simp only [map_eq_pure_bind]
  rfl

theorem traverse_cons (build : ι → m (PassT m σ α)) (item : ι) (items : List ι) :
    traverse build (item :: items) = (do
      let value ← built (build item)
      (value :: ·) <$> traverse build items) := by
  simp only [map_eq_pure_bind]
  rfl

end recursion

variable {σ α β : Type} {pass : PassT Trace σ α} {state middle final : σ} {value : α}
  {error : Error} {events later : List Event}

theorem run_bind_of_ok {next : α → PassT Trace σ β} {outcome : Except Error β × σ}
    (first : pass.run state = ⟨events, (.ok value, middle)⟩)
    (second : (next value).run middle = ⟨later, outcome⟩) :
    (pass >>= next : PassT Trace σ β).run state = ⟨events ++ later, outcome⟩ := by
  rw [run_bind]
  exact Trace.bind_eq first second

theorem run_bind_of_error {next : α → PassT Trace σ β}
    (first : pass.run state = ⟨events, (.error error, final)⟩) :
    (pass >>= next : PassT Trace σ β).run state = ⟨events, (.error error, final)⟩ := by
  rw [run_bind]
  exact Trace.bind_eq_of_silent first rfl

/-- Two steps fail when the first does, or when it succeeds and the second fails. -/
theorem run_bind_eq_error_iff {next : α → PassT Trace σ β} :
    (pass >>= next : PassT Trace σ β).run state = ⟨events, (.error error, final)⟩ ↔
      pass.run state = ⟨events, (.error error, final)⟩ ∨
        ∃ earlier value middle later, pass.run state = ⟨earlier, (.ok value, middle)⟩ ∧
          (next value).run middle = ⟨later, (.error error, final)⟩ ∧
          events = earlier ++ later := by
  rcases first : pass.run state with ⟨earlier, _ | value, middle⟩
  · rw [run_bind_of_error first]
    simp
  · rcases second : (next value).run middle with ⟨later, outcome, last⟩
    rw [run_bind_of_ok first second]
    simp only [Trace.mk.injEq, Prod.mk.injEq, reduceCtorEq, false_and, and_false, false_or]
    constructor
    · rintro ⟨rfl, rfl, rfl⟩
      exact ⟨earlier, value, middle, later, ⟨rfl, rfl, rfl⟩, second, rfl⟩
    · rintro ⟨_, _, _, _, ⟨rfl, same, rfl⟩, run, rfl⟩
      cases same
      rw [second] at run
      cases run
      exact ⟨rfl, rfl, rfl⟩

theorem run_map_of_ok {f : α → β} (run : pass.run state = ⟨events, (.ok value, final)⟩) :
    (f <$> pass : PassT Trace σ β).run state = ⟨events, (.ok (f value), final)⟩ := by
  rw [map_eq_pure_bind, run_bind]
  exact Trace.bind_eq_of_silent run rfl

theorem run_map_eq_error_iff {f : α → β} :
    (f <$> pass : PassT Trace σ β).run state = ⟨events, (.error error, final)⟩ ↔
      pass.run state = ⟨events, (.error error, final)⟩ := by
  rcases run : pass.run state with ⟨earlier, _ | value, last⟩
  · rw [map_eq_pure_bind, run_bind_of_error run]
    simp
  · rw [run_map_of_ok run]
    simp

theorem run_map_of_run {f : α → β} {outcome : Except Error α}
    (run : pass.run state = ⟨events, (outcome, final)⟩) :
    (f <$> pass : PassT Trace σ β).run state = ⟨events, (outcome.map f, final)⟩ := by
  cases outcome with
  | ok value => exact run_map_of_ok run
  | error error => exact run_map_eq_error_iff.mpr run

/-- What is built late shows that it is built before it shows that it runs. -/
theorem run_built_eq_iff {build : Trace (PassT Trace σ α)} {outcome : Except Error α × σ} :
    (built build).run state = ⟨events, outcome⟩ ↔
      ∃ later, build.value.run state = ⟨later, outcome⟩ ∧ events = build.events ++ later := by
  rcases run : build.value.run state with ⟨later, found⟩
  have total : (built build).run state = ⟨build.events ++ later, found⟩ := Trace.bind_eq rfl run
  rw [total]
  constructor
  · intro same
    cases same
    exact ⟨later, rfl, rfl⟩
  · rintro ⟨_, same, rfl⟩
    cases same
    rfl

variable {outcome : Except Error α}

theorem evaluate_eq_of_run (run : pass.run state = ⟨events, (outcome, final)⟩) :
    pass.evaluate state = ⟨events, outcome⟩ :=
  Trace.bind_eq_of_silent run rfl

theorem execute_eq_of_run (run : pass.run state = ⟨events, (outcome, final)⟩) :
    pass.execute state = ⟨events, outcome.map fun _ => final⟩ :=
  Trace.bind_eq_of_silent run rfl

end PassT

end SimplyTyped
