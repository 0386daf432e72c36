import SimplyTyped.Pass.Basic

/-!
# How passes run

What running does to the ways of making a pass. For passes without further effects,
`run_bind_eq_ok` and `run_bind_eq_error` take a run of two steps apart: a success is a
success of both, a failure is a failure of one, on the state that it leaves.
-/

set_option autoImplicit false

namespace SimplyTyped

namespace PassT

variable {m : Type → Type} [Monad m] {σ α β : Type}

theorem run_bind (pass : PassT m σ α) (next : α → PassT m σ β) (state : σ) :
    (pass >>= next : PassT m σ β).run state =
      pass.run state >>= fun outcome =>
        match outcome with
        | (.ok value, final) => (next value).run final
        | (.error error, final) => pure (.error error, final) := by
  refine bind_congr (x := pass.run state) fun outcome => ?_
  rcases outcome with ⟨_ | _, _⟩ <;> rfl

end PassT

namespace Pass

variable {σ α β : Type}

theorem evaluate_eq (pass : Pass σ α) (state : σ) :
    pass.evaluate state = (pass.run state).1 := rfl

theorem execute_eq (pass : Pass σ α) (state : σ) :
    pass.execute state = (pass.run state).1.map fun _ => (pass.run state).2 := rfl

@[simp] theorem run_pure (value : α) (state : σ) :
    run (pure value) state = (.ok value, state) := rfl

@[simp] theorem run_step (f : σ → Except Error α × σ) (state : σ) :
    run (PassT.step f) state = f state := rfl

@[simp] theorem run_gets (f : σ → α) (state : σ) :
    run (PassT.gets f) state = (.ok (f state), state) := rfl

@[simp] theorem run_modify (f : σ → σ) (state : σ) :
    run (PassT.modify f) state = (.ok (), f state) := rfl

@[simp] theorem run_lift (outcome : Except Error α) (state : σ) :
    run (PassT.lift outcome) state = (outcome, state) := rfl

theorem run_bind (pass : Pass σ α) (next : α → Pass σ β) (state : σ) :
    run (pass >>= next) state =
      match pass.run state with
      | (.ok value, final) => (next value).run final
      | (.error error, final) => (.error error, final) :=
  PassT.run_bind pass next state

/-- Where the state that a first step leaves is known beforehand, the outcomes of two steps
compose like those of computations without a state. -/
theorem evaluate_bind {pass : Pass σ α} {next : α → Pass σ β} {state middle : σ}
    (leaves : ∀ value final, pass.run state = (.ok value, final) → final = middle) :
    evaluate (pass >>= next) state =
      pass.evaluate state >>= fun value => (next value).evaluate middle := by
  rw [evaluate_eq, evaluate_eq, run_bind]
  rcases run : pass.run state with ⟨_ | value, final⟩
  · rfl
  · rw [leaves value final run]
    rfl

theorem run_map (f : α → β) (pass : Pass σ α) (state : σ) :
    run (f <$> pass) state = ((pass.run state).1.map f, (pass.run state).2) := by
  rw [map_eq_pure_bind, run_bind]
  rcases pass.run state with ⟨_ | _, _⟩ <;> rfl

/-- Two steps succeed when both do, the second from where the first ends. -/
@[simp] theorem run_bind_eq_ok {pass : Pass σ α} {next : α → Pass σ β} {state final : σ}
    {result : β} :
    run (pass >>= next) state = (.ok result, final) ↔
      ∃ value middle, pass.run state = (.ok value, middle) ∧
        (next value).run middle = (.ok result, final) := by
  rw [run_bind]
  rcases pass.run state with ⟨_ | value, middle⟩ <;> simp [and_assoc]

/-- Two steps fail when the first does, or when it succeeds and the second fails. -/
@[simp] theorem run_bind_eq_error {pass : Pass σ α} {next : α → Pass σ β} {state final : σ}
    {error : Error} :
    run (pass >>= next) state = (.error error, final) ↔
      pass.run state = (.error error, final) ∨
        ∃ value middle, pass.run state = (.ok value, middle) ∧
          (next value).run middle = (.error error, final) := by
  rw [run_bind]
  rcases pass.run state with ⟨_ | value, middle⟩ <;> simp [and_assoc]

@[simp] theorem run_map_eq_ok {f : α → β} {pass : Pass σ α} {state final : σ} {result : β} :
    run (f <$> pass) state = (.ok result, final) ↔
      ∃ value, pass.run state = (.ok value, final) ∧ f value = result := by
  rw [run_map]
  rcases pass.run state with ⟨_ | value, middle⟩ <;>
    simp [Except.map, and_assoc, and_comm]

@[simp] theorem run_map_eq_error {f : α → β} {pass : Pass σ α} {state final : σ}
    {error : Error} :
    run (f <$> pass) state = (.error error, final) ↔ pass.run state = (.error error, final) := by
  rw [run_map]
  rcases pass.run state with ⟨_ | value, middle⟩ <;> simp [Except.map]

end Pass

end SimplyTyped
