import SimplyTyped.Core.FailurePoint
import SimplyTyped.Proofs.Core.Verification

/-!
# What verification leaves behind

A check that fails leaves the lambdas around it open, so the parameters that stay visible tell
where it stands. After a success nothing but the names of the bindings is left, and that is all
that a program needs to go on where another one ended.
-/

set_option autoImplicit false

namespace SimplyTyped

namespace Context

@[simp] theorem enter_nil (context : Context) : context.enter [] = context := by
  simp [enter]

theorem enter_enter (context : Context) (outer inner : List Ref) :
    (context.enter outer).enter inner = context.enter (outer ++ inner) := by
  simp [enter]

end Context

/-! ## Expressions -/

namespace Expr

theorem SomeFailsAt.ne_nil {context : Context} {exprs entered error}
    (fails : SomeFailsAt context exprs entered error) : exprs ≠ [] := by
  cases fails <;> exact List.cons_ne_nil _ _

theorem FailsAt.run_verify {context : Context} {expr : Expr} {entered : List Ref} {error : Error}
    (fails : FailsAt context expr entered error) :
    expr.verify.run context = (.error error, context.enter entered) := by
  induction fails using FailsAt.rec
      (motive_2 := fun context exprs entered error _ =>
        (verifyAll exprs).run context = (.error error, context.enter entered)) with
  | var refused => exact run_verify_var_eq_error_iff.mpr ⟨refused, Context.enter_nil _⟩
  | emptyApplication =>
      rw [verify, Context.enter_nil]
      rfl
  | arguments fails run => exact (run_verify_app_eq_error_iff fails.ne_nil).mpr (.inl run)
  | callee some arguments _ run =>
      exact (run_verify_app_eq_error_iff some).mpr (.inr ⟨_, arguments, .inl run⟩)
  | application some arguments callee refused =>
      rw [Context.enter_nil]
      exact (run_verify_app_eq_error_iff some).mpr
        (.inr ⟨_, arguments, .inr ⟨_, callee, refused, rfl⟩⟩)
  | params refused =>
      exact run_verify_lambda_eq_error_iff.mpr (.inl ⟨refused, Context.enter_nil _⟩)
  | body accepted _ run =>
      rw [Context.enter_enter] at run
      exact run_verify_lambda_eq_error_iff.mpr (.inr ⟨accepted, .inl run⟩)
  | lambda accepted body refused =>
      rw [Context.enter_nil]
      exact run_verify_lambda_eq_error_iff.mpr (.inr ⟨accepted, .inr ⟨_, body, refused, rfl⟩⟩)
  | head _ run => exact run_verifyAll_cons_eq_error_iff.mpr (.inl run)
  | tail head _ run => exact run_verifyAll_cons_eq_error_iff.mpr (.inr ⟨_, head, run⟩)

mutual

theorem failsAt_of_run_verify {expr : Expr} {context final : Context} {error : Error}
    (run : expr.verify.run context = (.error error, final)) :
    ∃ entered, FailsAt context expr entered error ∧ final = context.enter entered := by
  cases expr with
  | var ref =>
      obtain ⟨refused, rfl⟩ := run_verify_var_eq_error_iff.mp run
      exact ⟨[], .var refused, (Context.enter_nil _).symm⟩
  | int value => cases run
  | bool value => cases run
  | app ty callee arguments =>
      by_cases none : arguments = []
      · subst none
        cases run
        exact ⟨[], .emptyApplication, (Context.enter_nil _).symm⟩
      rcases (run_verify_app_eq_error_iff none).mp run with
        run | ⟨_, argumentsRun, run | ⟨_, calleeRun, refused, rfl⟩⟩
      · obtain ⟨entered, fails, rfl⟩ := someFailsAt_of_run_verifyAll run
        exact ⟨entered, .arguments fails, rfl⟩
      · obtain ⟨entered, fails, rfl⟩ := failsAt_of_run_verify run
        exact ⟨entered, .callee none argumentsRun fails, rfl⟩
      · exact ⟨[], .application none argumentsRun calleeRun refused, (Context.enter_nil _).symm⟩
  | lambda ty params body =>
      rcases run_verify_lambda_eq_error_iff.mp run with
        ⟨refused, rfl⟩ | ⟨accepted, run | ⟨_, bodyRun, refused, rfl⟩⟩
      · exact ⟨[], .params refused, (Context.enter_nil _).symm⟩
      · obtain ⟨entered, fails, rfl⟩ := failsAt_of_run_verify run
        exact ⟨params ++ entered, .body accepted fails, Context.enter_enter _ _ _⟩
      · exact ⟨[], .lambda accepted bodyRun refused, (Context.enter_nil _).symm⟩

theorem someFailsAt_of_run_verifyAll {exprs : List Expr} {context final : Context} {error : Error}
    (run : (verifyAll exprs).run context = (.error error, final)) :
    ∃ entered, SomeFailsAt context exprs entered error ∧ final = context.enter entered := by
  cases exprs with
  | nil => cases run
  | cons expr exprs =>
      rcases run_verifyAll_cons_eq_error_iff.mp run with run | ⟨_, headRun, run⟩
      · obtain ⟨entered, fails, rfl⟩ := failsAt_of_run_verify run
        exact ⟨entered, .head fails, rfl⟩
      · obtain ⟨entered, fails, rfl⟩ := someFailsAt_of_run_verifyAll run
        exact ⟨entered, .tail headRun fails, rfl⟩

end

end Expr

/-! ## Programs -/

namespace Program

theorem FailsAt.run_verifyPass {context : Context} {program : Program} {verified entered : List Ref}
    {error : Error} (fails : program.FailsAt context verified entered error) :
    program.verifyPass.run context =
      (.error error, ⟨context.globals ++ verified, context.locals ++ entered⟩) := by
  induction fails with
  | entry fails =>
      rw [List.append_nil]
      exact fails.run_verify
  | value fails =>
      rw [List.append_nil]
      have valueFails := Binding.run_verify_eq_error_iff.mpr (.inl fails.run_verify)
      exact run_verifyPass_cons_eq_error_iff.mpr (.inl valueFails)
  | name value refused =>
      rw [List.append_nil, List.append_nil]
      have nameFails := Binding.run_verify_eq_error_iff.mpr (.inr ⟨_, value, refused, rfl⟩)
      exact run_verifyPass_cons_eq_error_iff.mpr (.inl nameFails)
  | later bound _ run =>
      rw [Context.addGlobal, List.append_assoc] at run
      exact run_verifyPass_cons_eq_error_iff.mpr (.inr ⟨bound, run⟩)

theorem failsAt_of_run_verifyPass {program : Program} {context final : Context} {error : Error}
    (run : program.verifyPass.run context = (.error error, final)) :
    ∃ verified entered, program.FailsAt context verified entered error := by
  obtain ⟨bindings, entry⟩ := program
  induction bindings generalizing context with
  | nil =>
      obtain ⟨entered, fails, -⟩ := Expr.failsAt_of_run_verify run
      exact ⟨[], entered, .entry fails⟩
  | cons binding bindings ih =>
      rcases run_verifyPass_cons_eq_error_iff.mp run with run | ⟨bound, run⟩
      · rcases Binding.run_verify_eq_error_iff.mp run with run | ⟨derived, value, refused, -⟩
        · obtain ⟨entered, fails, -⟩ := Expr.failsAt_of_run_verify run
          exact ⟨[], entered, .value fails⟩
        · exact ⟨[], [], .name value refused⟩
      · obtain ⟨verified, entered, fails⟩ := ih run
        exact ⟨binding.name :: verified, entered, .later bound fails⟩

theorem run_verifyPass_eq_error_iff {program : Program} {context final : Context} {error : Error} :
    program.verifyPass.run context = (.error error, final) ↔
      ∃ verified entered, program.FailsAt context verified entered error ∧
        final = ⟨context.globals ++ verified, context.locals ++ entered⟩ := by
  constructor
  · intro run
    obtain ⟨verified, entered, fails⟩ := failsAt_of_run_verifyPass run
    exact ⟨verified, entered, fails, (Prod.mk.inj (run.symm.trans fails.run_verifyPass)).2⟩
  · rintro ⟨verified, entered, fails, rfl⟩
    exact fails.run_verifyPass

/-! ## One program after another -/

theorem HasType.run_verifyPass_append {first : Program} {context : Context} {ty : Ty}
    (typing : first.HasType context ty) (second : Program) :
    second.verifyPass.run ⟨context.globals ++ first.bindings.map (·.name), context.locals⟩ =
      (verifyPass ⟨first.bindings ++ second.bindings, second.entry⟩).run context := by
  induction typing with
  | entry =>
      rw [List.map_nil, List.append_nil]
      rfl
  | @binding context binding _ _ _ global value _ ih =>
      have bound : binding.verify.run context = (.ok (), context.addGlobal binding.name) :=
        Binding.run_verify_eq_ok_iff.mpr ⟨global, value, rfl⟩
      rw [List.cons_append, verifyPass_cons, Pass.run_bind, bound]
      refine Eq.trans ?_ ih
      simp [Context.addGlobal]

/-- Verification changes nothing but what is visible. A success leaves the parameters as they
were and adds the names of all bindings. A failure leaves open exactly the lambdas around the
check that failed, outermost first, and adds the names of the bindings before it. So a program
is verified where a verified one ended as if its bindings had followed there. -/
theorem verifyPass_effect (program : Program) (context : Context) :
    (∀ ty final, program.verifyPass.run context = (.ok ty, final) →
      final = ⟨context.globals ++ program.bindings.map (·.name), context.locals⟩) ∧
    (∀ error final, program.verifyPass.run context = (.error error, final) ↔
      ∃ verified entered, program.FailsAt context verified entered error ∧
        final = ⟨context.globals ++ verified, context.locals ++ entered⟩) ∧
    ∀ ty middle, program.verifyPass.run context = (.ok ty, middle) → ∀ next : Program,
      next.verifyPass.run middle =
        (verifyPass ⟨program.bindings ++ next.bindings, next.entry⟩).run context := by
  refine ⟨fun ty final run => ?success, fun error final => run_verifyPass_eq_error_iff,
    fun ty middle run next => ?composed⟩
  case success => exact (run_verifyPass_eq_ok_iff.mp run).2
  case composed =>
    obtain ⟨typing, rfl⟩ := run_verifyPass_eq_ok_iff.mp run
    exact typing.run_verifyPass_append next

/-- The second of two programs fails inside two lambdas, after a binding that uses the first
one's. -/
theorem verifyPass_effect_nested :
    let g : Ref := ⟨⟨"g"⟩, 0, .int, .global⟩
    let h : Ref := ⟨⟨"h"⟩, 0, .int, .global⟩
    let x : Ref := ⟨⟨"x"⟩, 0, .int, .param⟩
    let y : Ref := ⟨⟨"y"⟩, 0, .bool, .param⟩
    let first : Program := ⟨[⟨g, .int 1⟩], .var g⟩
    let second : Program :=
      ⟨[⟨h, .var g⟩], .lambda .unknown [x] (.lambda .unknown [y] (.var (.unresolved ⟨"z"⟩)))⟩
    let middle : Context := ⟨[g], []⟩
    let error : Error := .undefined (.unresolved ⟨"z"⟩)
    first.verifyPass.run .empty = (.ok .int, middle) ∧
      second.verifyPass.run middle =
        (verifyPass ⟨first.bindings ++ second.bindings, second.entry⟩).run .empty ∧
      second.verifyPass.run middle = (.error error, ⟨[g, h], [x, y]⟩) ∧
      second.FailsAt middle [h] [x, y] error := by
  intro g h x y first second middle error
  have firstRun : first.verifyPass.run .empty = (.ok .int, middle) := rfl
  have secondRun : second.verifyPass.run middle = (.error error, ⟨[g, h], [x, y]⟩) := rfl
  obtain ⟨-, -, composed⟩ := verifyPass_effect first .empty
  obtain ⟨-, failed, -⟩ := verifyPass_effect second middle
  obtain ⟨verified, entered, fails, left⟩ := (failed _ _).mp secondRun
  obtain ⟨sameVerified, sameEntered⟩ := Context.mk.inj left
  obtain ⟨-, rfl⟩ := List.cons.inj sameVerified
  obtain rfl := sameEntered
  exact ⟨firstRun, composed _ _ firstRun second, secondRun, fails⟩

end Program

end SimplyTyped
