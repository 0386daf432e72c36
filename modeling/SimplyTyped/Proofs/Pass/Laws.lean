import SimplyTyped.Pass.Lemmas
import SimplyTyped.Pass.Script
import SimplyTyped.Pass.Trace

/-!
# Laws of scripts

Scripts obey the laws of a monad although their building shows. A script that is built and run
at once is a pass (`PassT.built`), and continuations compose such passes (`built_andThen`), so
that the laws of passes carry over to scripts with all of their events.
-/

set_option autoImplicit false

namespace SimplyTyped

namespace PassT

variable {m : Type → Type} {σ α β γ : Type}

theorem ext_run {left right : PassT m σ α} (same : ∀ state, left.run state = right.run state) :
    left = right :=
  funext same

variable [Monad m]

theorem run_built (build : m (PassT m σ α)) (state : σ) :
    (built build).run state = build >>= fun pass => pass.run state := rfl

variable [LawfulMonad m]

theorem built_pure (pass : PassT m σ α) : built (pure pass) = pass := by
  refine ext_run fun state => ?_
  rw [run_built, pure_bind]

/-- A continuation that is not built before its turn is a step of its own. -/
theorem built_andThen (build : m (PassT m σ α)) (next : α → m (PassT m σ β)) :
    built (do
      let pass ← build
      return pass.andThen next) = (do
      let value ← built build
      built (next value)) := by
  refine ext_run fun state => ?_
  simp only [run_built, run_bind, bind_assoc, pure_bind, andThen]

theorem andThen_assoc (pass : PassT m σ α) (next : α → m (PassT m σ β))
    (last : β → m (PassT m σ γ)) :
    (pass.andThen next).andThen last = pass.andThen fun value => do
      let second ← next value
      return second.andThen last := by
  simp only [andThen, bind_assoc, ← built_andThen]

theorem pure_andThen (value : α) (next : α → m (PassT m σ β)) :
    (pure value : PassT m σ α).andThen next = built (next value) :=
  pure_bind ..

theorem andThen_pure (pass : PassT m σ α) :
    (pass.andThen fun value => pure (pure value)) = pass := by
  simp only [andThen, built_pure, bind_pure]

theorem followedBy_assoc (pass : PassT m σ α) (next : PassT m σ β) (last : PassT m σ γ) :
    (pass.followedBy next).followedBy last = pass.followedBy (next.followedBy last) :=
  bind_assoc ..

end PassT

namespace Script

theorem Alike.of_built {left right : Trace (Step Value)}
    (same : PassT.built left = PassT.built right) : Alike left right := by
  have run (state : Value) : (do
      let pass ← left
      pass.run state) = (do
      let pass ← right
      pass.run state) := by
    rw [← PassT.run_built, same, PassT.run_built]
  refine ⟨run, fun state => ?_, fun state => ?_⟩
  · simp only [PassT.evaluate, ← bind_assoc, run]
  · simp only [PassT.execute, ← bind_assoc, run]

theorem build_andThen_assoc (first second third : Script) (it : Value) :
    ((first.andThen second).andThen third).build it =
      (first.andThen (second.andThen third)).build it := by
  simp only [build, bind_assoc, pure_bind, PassT.andThen_assoc]

theorem build_followedBy_assoc (first second third : Script) (it : Value) :
    ((first.followedBy second).followedBy third).build it =
      (first.followedBy (second.followedBy third)).build it := by
  simp only [build, bind_assoc, pure_bind, PassT.followedBy_assoc]

theorem build_andThen_it (script : Script) (it : Value) :
    (script.andThen (.pure .it)).build it = script.build it := by
  simp only [build, Operand.resolve, PassT.andThen_pure, bind_pure]

theorem built_pure_andThen (operand : Operand) (next : Script) (it : Value) :
    PassT.built (((pure operand).andThen next).build it) =
      PassT.built (next.build (operand.resolve it)) := by
  simp only [build, pure_bind, PassT.built_pure, PassT.pure_andThen]

/-- Whatever is received around them, `andThen` and `followedBy` are associative, `it` is the
value that a continuation hands on unchanged, and a value that is written down is received like
any other. This shows in no event, outcome or state, however the scripts are run. -/
theorem monad_laws (first second third : Script) (operand : Operand) (it : Value) :
    Alike (((first.andThen second).andThen third).build it)
        ((first.andThen (second.andThen third)).build it) ∧
      Alike (((first.followedBy second).followedBy third).build it)
        ((first.followedBy (second.followedBy third)).build it) ∧
      Alike ((first.andThen (.pure .it)).build it) (first.build it) ∧
      Alike (((pure operand).andThen second).build it) (second.build (operand.resolve it)) :=
  ⟨.of_built (congrArg PassT.built (build_andThen_assoc first second third it)),
    .of_built (congrArg PassT.built (build_followedBy_assoc first second third it)),
    .of_built (congrArg PassT.built (build_andThen_it first it)),
    .of_built (built_pure_andThen operand second it)⟩

/-- Only a continuation is built after what comes before it has run. -/
example :
    ((tick "a").andThen ((tick "b").followedBy (tick "c"))).run .null =
      ⟨[.built "a", .ran "a", .built "b", .built "c", .ran "b", .ran "c"],
        (.ok .null, .null)⟩ :=
  rfl

end Script

end SimplyTyped
