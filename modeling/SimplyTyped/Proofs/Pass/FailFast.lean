import SimplyTyped.Pass.Reach
import SimplyTyped.Pass.Script
import SimplyTyped.Proofs.Pass.Trace

/-!
# Failures of passes

A step that is reached and fails is the end of its pass, however deep it stands: the pass
fails with the error of the step, on the state that the step leaves, and nothing is built or
run from there on. Scripts fail in no other way. The ways of running a pass differ only in
what they hand out.
-/

set_option autoImplicit false

namespace SimplyTyped

namespace PassT

variable {σ α β : Type}

/-- A pass fails as the step does that its run comes to. -/
theorem Reaches.run_of_error {pass : PassT Trace σ α} {step : PassT Trace σ β}
    {state point final : σ} {events later : List Event} {error : Error}
    (reached : step.Reaches point pass state events)
    (failed : step.run point = ⟨later, (.error error, final)⟩) :
    pass.run state = ⟨events ++ later, (.error error, final)⟩ := by
  induction reached with
  | here => exact failed
  | map _ ih => exact run_map_eq_error_iff.mpr ih
  | first _ ih => exact run_bind_of_error ih
  | second ran _ ih =>
      rw [List.append_assoc]
      exact run_bind_of_ok ran ih
  | handed _ ih => exact run_bind_of_error ih
  | continued ran _ ih =>
      have built := run_built_eq_iff.mpr ⟨_, ih, rfl⟩
      rw [List.append_assoc, List.append_assoc]
      exact run_bind_of_ok ran built
  | sequenceHead _ ih =>
      rw [sequence_cons]
      exact run_bind_of_error ih
  | sequenceTail ran _ ih =>
      rw [sequence_cons, List.append_assoc]
      exact run_bind_of_ok ran (run_map_eq_error_iff.mpr ih)
  | traverseHead _ ih =>
      have built := run_built_eq_iff.mpr ⟨_, ih, rfl⟩
      rw [traverse_cons, List.append_assoc]
      exact run_bind_of_error built
  | traverseTail ran _ ih =>
      have built := run_built_eq_iff.mpr ⟨_, ran, rfl⟩
      rw [traverse_cons, List.append_assoc]
      exact run_bind_of_ok built (run_map_eq_error_iff.mpr ih)

end PassT

namespace Script

/-! ## Failures of scripts -/

/-- Every failure of a pass is that of a script without parts that its run comes to, and
nothing happens from there on. -/
def FailsAtSteps {α : Type} (pass : Step α) : Prop :=
  ∀ (state final : Value) (events : List Event) (error : Error),
    pass.run state = ⟨events, (.error error, final)⟩ →
      ∃ (script : Script) (it point : Value), script.IsStep ∧
        (script.build it).value.Reaches point pass state events ∧
        (script.build it).value.run point = ⟨[], (.error error, final)⟩

section FailsAtSteps

open PassT

variable {α β : Type} {pass : Step α} {next : Step β}

theorem FailsAtSteps.map (fails : FailsAtSteps pass) (f : α → β) :
    FailsAtSteps (f <$> pass : Step β) := by
  intro state final events error failed
  obtain ⟨script, it, point, step, reached, stops⟩ := fails _ _ _ _ (run_map_eq_error_iff.mp failed)
  exact ⟨script, it, point, step, .map reached, stops⟩

theorem FailsAtSteps.followedBy (first : FailsAtSteps pass) (second : FailsAtSteps next) :
    FailsAtSteps (pass.followedBy next) := by
  intro state final events error failed
  rcases run_bind_eq_error_iff.mp failed with firstFailed | ⟨_, _, _, _, ran, nextFailed, rfl⟩
  · obtain ⟨script, it, point, step, reached, stops⟩ := first _ _ _ _ firstFailed
    exact ⟨script, it, point, step, .first reached, stops⟩
  · obtain ⟨script, it, point, step, reached, stops⟩ := second _ _ _ _ nextFailed
    exact ⟨script, it, point, step, .second ran reached, stops⟩

theorem FailsAtSteps.andThen {next : α → Trace (Step β)} (first : FailsAtSteps pass)
    (second : ∀ value, FailsAtSteps (next value).value) : FailsAtSteps (pass.andThen next) := by
  intro state final events error failed
  rcases run_bind_eq_error_iff.mp failed with firstFailed | ⟨_, value, _, _, ran, later, rfl⟩
  · obtain ⟨script, it, point, step, reached, stops⟩ := first _ _ _ _ firstFailed
    exact ⟨script, it, point, step, .handed reached, stops⟩
  · obtain ⟨_, nextFailed, rfl⟩ := run_built_eq_iff.mp later
    obtain ⟨script, it, point, step, reached, stops⟩ := second value _ _ _ _ nextFailed
    rw [← List.append_assoc]
    exact ⟨script, it, point, step, .continued ran reached, stops⟩

theorem FailsAtSteps.sequence {passes : List (Step α)}
    (each : ∀ pass ∈ passes, FailsAtSteps pass) : FailsAtSteps (PassT.sequence passes) := by
  induction passes with
  | nil => exact nofun
  | cons pass passes ih =>
      have ⟨first, rest⟩ := List.forall_mem_cons.mp each
      intro state final events error failed
      rw [sequence_cons, run_bind_eq_error_iff] at failed
      rcases failed with firstFailed | ⟨_, _, _, _, ran, later, rfl⟩
      · obtain ⟨script, it, point, step, reached, stops⟩ := first _ _ _ _ firstFailed
        exact ⟨script, it, point, step, .sequenceHead reached, stops⟩
      · obtain ⟨script, it, point, step, reached, stops⟩ :=
          ih rest _ _ _ _ (run_map_eq_error_iff.mp later)
        exact ⟨script, it, point, step, .sequenceTail ran reached, stops⟩

theorem FailsAtSteps.traverse {ι : Type} {build : ι → Trace (Step α)}
    (each : ∀ item, FailsAtSteps (build item).value) (items : List ι) :
    FailsAtSteps (PassT.traverse build items) := by
  induction items with
  | nil => exact nofun
  | cons item items ih =>
      intro state final events error failed
      rw [traverse_cons, run_bind_eq_error_iff] at failed
      rcases failed with head | ⟨_, _, _, _, ran, later, rfl⟩
      · obtain ⟨_, itemFailed, rfl⟩ := run_built_eq_iff.mp head
        obtain ⟨script, it, point, step, reached, stops⟩ := each item _ _ _ _ itemFailed
        exact ⟨script, it, point, step, .traverseHead reached, stops⟩
      · obtain ⟨_, itemRan, rfl⟩ := run_built_eq_iff.mp ran
        obtain ⟨script, it, point, step, reached, stops⟩ :=
          ih _ _ _ _ (run_map_eq_error_iff.mp later)
        exact ⟨script, it, point, step, .traverseTail itemRan reached, stops⟩

end FailsAtSteps

/-- A script without parts fails at once. -/
theorem failsAtSteps_of_isStep {script : Script} (step : script.IsStep) (it : Value) :
    FailsAtSteps (script.build it).value := by
  intro state final events error failed
  have silent : events = [] := by
    cases script with
    | map | followedBy | andThen | sequence | traverse => exact step.elim
    | lift outcome =>
        cases outcome with
        | ok operand => cases failed
        | error => cases failed; rfl
    | renew f failure =>
        cases failure with
        | none => cases failed
        | some failure => cases failed; rfl
    | _ => cases failed <;> rfl
  subst silent
  exact ⟨script, it, state, step, .here, failed⟩

mutual

theorem failsAtSteps (script : Script) (it : Value) : FailsAtSteps (script.build it).value := by
  cases script with
  | map script f =>
      rw [build]
      exact (failsAtSteps script it).map _
  | followedBy script next =>
      rw [build]
      exact (failsAtSteps script it).followedBy (failsAtSteps next it)
  | andThen script next =>
      rw [build]
      exact (failsAtSteps script it).andThen fun value => failsAtSteps next value
  | sequence scripts =>
      rw [build]
      exact (FailsAtSteps.sequence (eachFailsAtSteps scripts it)).map _
  | traverse operands body =>
      rw [build]
      exact (FailsAtSteps.traverse (fun item => failsAtSteps body item) _).map _
  | _ =>
      refine failsAtSteps_of_isStep ?_ it
      exact trivial

theorem eachFailsAtSteps (scripts : List Script) (it : Value) :
    ∀ pass ∈ (buildAll scripts it).value, FailsAtSteps pass := by
  cases scripts with
  | nil => exact fun _ member => absurd member List.not_mem_nil
  | cons script scripts =>
      rw [buildAll]
      exact List.forall_mem_cons.mpr ⟨failsAtSteps script it, eachFailsAtSteps scripts it⟩

end

/-- A script fails exactly as a step of it does that its run comes to. -/
theorem run_eq_error_iff {script : Script} {state final : Value} {events : List Event}
    {error : Error} :
    script.run state = ⟨events, (.error error, final)⟩ ↔
      ∃ (failing : Script) (it point : Value) (before : List Event), failing.IsStep ∧
        (failing.build it).value.Reaches point (script.build .null).value state before ∧
        (failing.build it).value.run point = ⟨[], (.error error, final)⟩ ∧
        events = (script.build .null).events ++ before := by
  constructor
  · intro failed
    have whole : (PassT.built (script.build .null)).run state = _ := failed
    obtain ⟨before, inside, rfl⟩ := PassT.run_built_eq_iff.mp whole
    obtain ⟨failing, it, point, step, reached, stops⟩ := failsAtSteps script .null _ _ _ _ inside
    exact ⟨failing, it, point, before, step, reached, stops, rfl⟩
  · rintro ⟨failing, it, point, before, -, reached, stops, rfl⟩
    have failed := reached.run_of_error stops
    rw [List.append_nil] at failed
    exact Trace.bind_eq rfl failed

end Script

/-- Passes fail fast. Where a step is reached and fails, the whole pass fails with its error,
on the state that it leaves, and nothing happens from there on; `evaluate` and `execute` differ
from `run` only in that they drop the state. On success they hand out the value and the final
state of the same run. Scripts fail in no other way than by a step of theirs. -/
theorem failFast :
    (∀ {σ α β : Type} (pass : PassT Trace σ α) (step : PassT Trace σ β) (state point final : σ)
        (events later : List Event) (error : Error),
      step.Reaches point pass state events → step.run point = ⟨later, (.error error, final)⟩ →
        pass.run state = ⟨events ++ later, (.error error, final)⟩ ∧
          pass.evaluate state = ⟨events ++ later, .error error⟩ ∧
          pass.execute state = ⟨events ++ later, .error error⟩) ∧
    (∀ {σ α : Type} (pass : PassT Trace σ α) (state final : σ) (events : List Event) (value : α),
      pass.run state = ⟨events, (.ok value, final)⟩ →
        pass.evaluate state = ⟨events, .ok value⟩ ∧ pass.execute state = ⟨events, .ok final⟩) ∧
    ∀ (script : Script) (state final : Script.Value) (events : List Event) (error : Error),
      script.run state = ⟨events, (.error error, final)⟩ ↔
        ∃ (failing : Script) (it point : Script.Value) (before : List Event), failing.IsStep ∧
          (failing.build it).value.Reaches point (script.build .null).value state before ∧
          (failing.build it).value.run point = ⟨[], (.error error, final)⟩ ∧
          events = (script.build .null).events ++ before := by
  refine ⟨fun pass step state point final events later error reached failed => ?fails,
    fun pass state final events value run => ?succeeds,
    fun script state final events error => Script.run_eq_error_iff⟩
  case fails =>
    have run := reached.run_of_error failed
    exact ⟨run, PassT.evaluate_eq_of_run run, PassT.execute_eq_of_run run⟩
  case succeeds => exact ⟨PassT.evaluate_eq_of_run run, PassT.execute_eq_of_run run⟩

/-- The second item of a traversal fails in a continuation: the state keeps what was done
before, the third item is not built, and what follows the traversal is not run. -/
theorem failFast_second_item :
    let item (label : String × Bool) : Trace (PassT Trace Nat Nat) := do
      Trace.note (.built label.1)
      return (PassT.modify (· + 1)).andThen fun _ => do
        Trace.note (.ran label.1)
        return PassT.step fun count =>
          (if label.2 then .error (.generic label.1) else .ok count, count * 10)
    let pass := (PassT.traverse item [("a", false), ("b", true), ("c", false)]).followedBy
      (PassT.put 0)
    pass.run 0 =
        ⟨[.built "a", .ran "a", .built "b", .ran "b"], (.error (.generic "b"), 110)⟩ ∧
      pass.evaluate 0 =
        ⟨[.built "a", .ran "a", .built "b", .ran "b"], .error (.generic "b")⟩ ∧
      pass.execute 0 =
        ⟨[.built "a", .ran "a", .built "b", .ran "b"], .error (.generic "b")⟩ := by
  intro item pass
  have ran : (item ("a", false)).value.run 0 = ⟨[.ran "a"], (.ok 1, 10)⟩ := rfl
  have reached : (item ("b", true)).value.Reaches 10 pass 0 _ :=
    .first (.traverseTail ran (.traverseHead .here))
  exact failFast.1 pass _ 0 10 110 _ [.ran "b"] _ reached rfl

end SimplyTyped
