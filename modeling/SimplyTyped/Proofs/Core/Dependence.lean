import SimplyTyped.Proofs.Core.Outcome
import SimplyTyped.Proofs.Core.Visibility

/-!
# What verification depends on

Two contexts in which the same free uses are visible cannot be told apart by verification,
whatever else they hold and in whichever order. A use that a binder takes away is never
looked up outside it: a binder of the wrong scope is refused before its scope is entered.
-/

set_option autoImplicit false

namespace SimplyTyped

namespace Context

/-- Each of the references is visible in both contexts or in neither. -/
def AgreeOn (refs : List Ref) (context other : Context) : Prop :=
  ∀ ref ∈ refs, context.Sees ref ↔ other.Sees ref

variable {context other : Context} {params left right refs : List Ref} {name ref : Ref}

theorem agreeOn_append :
    AgreeOn (left ++ right) context other ↔
      AgreeOn left context other ∧ AgreeOn right context other := by
  simp [AgreeOn, or_imp, forall_and]

theorem sees_enter_iff :
    (context.enter params).Sees ref ↔ context.Sees ref ∨ ref.scope = .param ∧ ref ∈ params := by
  simp only [sees_iff, enter, List.mem_append, and_or_left]
  exact or_right_comm

theorem sees_addGlobal_iff :
    (context.addGlobal name).Sees ref ↔ context.Sees ref ∨ ref.scope = .global ∧ ref = name := by
  simp only [sees_iff, addGlobal, List.mem_append, List.mem_singleton, and_or_left]
  exact or_assoc.symm

theorem AgreeOn.enter (agree : AgreeOn (refs.filter (· ∉ params)) context other)
    (parameters : ∀ param ∈ params, param.scope = .param) :
    AgreeOn refs (context.enter params) (other.enter params) := by
  intro ref used
  rw [sees_enter_iff, sees_enter_iff]
  by_cases bound : ref ∈ params
  · simp [bound, parameters ref bound]
  · have free := agree ref (List.mem_filter.mpr ⟨used, by simpa using bound⟩)
    simp [bound, free]

theorem AgreeOn.addGlobal (agree : AgreeOn (refs.filter (· ≠ name)) context other)
    (global : name.scope = .global) :
    AgreeOn refs (context.addGlobal name) (other.addGlobal name) := by
  intro ref used
  rw [sees_addGlobal_iff, sees_addGlobal_iff]
  by_cases bound : ref = name
  · simp [bound, global]
  · have free := agree ref (List.mem_filter.mpr ⟨used, by simpa using bound⟩)
    simp [bound, free]

theorem typeOf_congr (agree : context.Sees ref ↔ other.Sees ref) :
    context.typeOf ref = other.typeOf ref := by
  simp only [typeOf, agree]

end Context

open Context (AgreeOn agreeOn_append)

namespace Expr

mutual

theorem evaluate_verify_congr {expr : Expr} {context other : Context}
    (agree : AgreeOn expr.freeUses context other) :
    expr.verify.evaluate context = expr.verify.evaluate other := by
  cases expr with
  | var ref => exact Context.typeOf_congr (agree ref List.mem_cons_self)
  | int value => rfl
  | bool value => rfl
  | app ty callee arguments =>
      obtain ⟨calleeAgree, argumentsAgree⟩ := agreeOn_append.mp agree
      by_cases none : arguments = []
      · rw [none]
        rfl
      · rw [evaluate_verify_app none, evaluate_verify_app none,
          evaluate_verifyAll_congr argumentsAgree, evaluate_verify_congr calleeAgree]
  | lambda ty params body =>
      rw [evaluate_verify_lambda, evaluate_verify_lambda]
      cases checked : checkParams params with
      | error error => rfl
      | ok _ =>
          obtain ⟨-, accepted⟩ := checkParams_eq_ok_iff.mp checked
          rw [evaluate_verify_congr (agree.enter fun param bound => (accepted param bound).1)]

theorem evaluate_verifyAll_congr {exprs : List Expr} {context other : Context}
    (agree : AgreeOn (freeUsesAll exprs) context other) :
    (verifyAll exprs).evaluate context = (verifyAll exprs).evaluate other := by
  cases exprs with
  | nil => rfl
  | cons expr exprs =>
      obtain ⟨headAgree, tailAgree⟩ := agreeOn_append.mp agree
      rw [evaluate_verifyAll_cons, evaluate_verifyAll_cons, evaluate_verify_congr headAgree,
        evaluate_verifyAll_congr tailAgree]

end

end Expr

namespace Program

theorem evaluate_verifyPass_congr {program : Program} {context other : Context}
    (agree : AgreeOn program.freeUses context other) :
    program.verifyPass.evaluate context = program.verifyPass.evaluate other := by
  obtain ⟨bindings, entry⟩ := program
  induction bindings generalizing context other with
  | nil => exact Expr.evaluate_verify_congr agree
  | cons binding bindings ih =>
      obtain ⟨valueAgree, restAgree⟩ := agreeOn_append.mp agree
      have same : binding.verify.evaluate context = binding.verify.evaluate other := by
        rw [Binding.evaluate_verify, Binding.evaluate_verify,
          Expr.evaluate_verify_congr valueAgree]
      rw [evaluate_verifyPass_cons, evaluate_verifyPass_cons, ← same]
      cases verified : binding.verify.evaluate context with
      | error error => rfl
      | ok _ =>
          have run : binding.verify.run context = (.ok (), _) := Prod.ext verified rfl
          obtain ⟨global, -⟩ := Binding.run_verify_eq_ok_iff.mp run
          exact ih (restAgree.addGlobal global)

/-- Verification asks its context about the free references of the program only. Where the
same ones of these are visible, the outcome is the same, be it a type or an error; and a
program that is verified stays so, with the type it has, where more is visible. -/
theorem verifyPass_depends_on_freeRefs (program : Program) (context other : Context) :
    ∃ free, program.freeRefs = .ok free ∧
      ((∀ ref ∈ free, context.Sees ref ↔ other.Sees ref) →
        program.verifyPass.evaluate context = program.verifyPass.evaluate other) ∧
      ∀ ty, program.verifyPass.evaluate context = .ok ty →
        (∀ ref, context.Sees ref → other.Sees ref) →
        program.verifyPass.evaluate other = .ok ty := by
  refine ⟨_, program.freeRefs_eq, fun agree => ?same, fun ty verified more => ?stable⟩
  case same =>
    exact evaluate_verifyPass_congr fun ref used => agree ref (SortedSet.mem_ofList.mpr used)
  case stable =>
    -- Where a program is verified, each of its free uses is visible, and so it is where more is.
    have typing := evaluate_verifyPass_eq_ok_iff.mp verified
    rw [← verified]
    refine (evaluate_verifyPass_congr fun ref used => ?_).symm
    have sees := typing.sees ref used
    exact iff_of_true sees (more ref sees)

/-- The use of `g` is bound by a parameter of the wrong scope. It is not looked up among the
globals of the context, where `g` would be found in one of the two only. -/
theorem verifyPass_depends_on_freeRefs_captured :
    let f : Ref := ⟨⟨"f"⟩, 0, .arrow .int .int, .global⟩
    let g : Ref := ⟨⟨"g"⟩, 0, .int, .global⟩
    let context : Context := ⟨[f], []⟩
    let other : Context := ⟨[g, f], []⟩
    let called : Expr := .app .int (.var f) [.int 1]
    let captured : Program := ⟨[], .app .int (.lambda f.ty [g] (.var g)) [called]⟩
    let plain : Program := ⟨[], called⟩
    ¬ context.Sees g ∧ other.Sees g ∧
      (∃ free, captured.freeRefs = .ok free ∧ f ∈ free ∧
        ∀ ref ∈ free, context.Sees ref ↔ other.Sees ref) ∧
      captured.verifyPass.evaluate context = captured.verifyPass.evaluate other ∧
      plain.verifyPass.evaluate context = .ok .int ∧
      plain.verifyPass.evaluate other = .ok .int := by
  intro f g context other called captured plain
  obtain ⟨free, found, same, -⟩ := verifyPass_depends_on_freeRefs captured context other
  obtain ⟨-, -, -, stable⟩ := verifyPass_depends_on_freeRefs plain context other
  have uses : free = .ofList [f] := Except.ok.inj (found.symm.trans rfl)
  have agree : ∀ ref ∈ free, context.Sees ref ↔ other.Sees ref := by
    intro ref used
    rw [uses, SortedSet.mem_ofList, List.mem_singleton] at used
    subst used
    decide
  have more : ∀ ref, context.Sees ref → other.Sees ref := by
    intro ref sees
    rw [Context.sees_iff] at sees ⊢
    exact sees.imp_right fun global => ⟨global.1, List.mem_cons_of_mem _ global.2⟩
  have member : f ∈ free := uses ▸ SortedSet.mem_ofList.mpr List.mem_cons_self
  exact ⟨by decide, by decide, ⟨free, found, member, agree⟩, same agree, rfl,
    stable .int rfl more⟩

end Program

end SimplyTyped
