import SimplyTyped.Core.Occurrences
import SimplyTyped.Proofs.Core.FreeRefs
import SimplyTyped.Proofs.Core.Verification

/-!
# Verification and free uses

Verification looks a use up among what is visible, and the analysis of free references
among what was bound on the way. They go wrong together: where verification succeeds,
every free use is visible, and what it reports as undefined is a free use.
-/

set_option autoImplicit false

namespace SimplyTyped

namespace Context

variable {context : Context} {params : List Ref} {name ref : Ref}

theorem sees_of_enter (sees : (context.enter params).Sees ref) (foreign : ref ∉ params) :
    context.Sees ref := by
  rw [sees_iff] at sees ⊢
  rcases sees with ⟨param, bound⟩ | global
  · exact .inl ⟨param, (List.mem_append.mp bound).resolve_right foreign⟩
  · exact .inr global

theorem sees_of_addGlobal (sees : (context.addGlobal name).Sees ref) (other : ref ≠ name) :
    context.Sees ref := by
  rw [sees_iff] at sees ⊢
  rcases sees with param | ⟨global, bound⟩
  · exact .inl param
  · have elsewhere : ref ∉ [name] := by simpa using other
    exact .inr ⟨global, (List.mem_append.mp bound).resolve_right elsewhere⟩

theorem not_sees_empty : ¬ Context.empty.Sees ref := by
  simp [sees_iff, empty]

theorem typeOf_eq_undefined_iff {used : Ref} :
    context.typeOf used = .error (.undefined ref) ↔ used.IsUnresolved ∧ ref = used := by
  by_cases unresolved : used.IsUnresolved
  · simp [typeOf, unresolved, eq_comm]
  · by_cases known : used.ty.Known
    · by_cases sees : context.Sees used <;> simp [typeOf, unresolved, known, sees]
    · simp [typeOf, unresolved, known]

end Context

/-! ## What is verified is visible -/

namespace Expr

mutual

theorem HasType.sees {context : Context} {expr : Expr} {ty : Ty}
    (typing : HasType context expr ty) : ∀ ref ∈ expr.freeUses, context.Sees ref := by
  cases typing with
  | param param bound _ => simp [freeUses, Context.sees_iff, param, bound]
  | global global bound _ => simp [freeUses, Context.sees_iff, global, bound]
  | int => simp [freeUses]
  | bool => simp [freeUses]
  | app _ callee arguments =>
      rw [freeUses, List.forall_mem_append]
      exact ⟨callee.sees, arguments.sees⟩
  | lambda _ _ body =>
      intro ref used
      obtain ⟨used, foreign⟩ := List.mem_filter.mp used
      exact Context.sees_of_enter (body.sees ref used) (by simpa using foreign)

theorem HaveTypes.sees {context : Context} {exprs : List Expr} {tys : List Ty}
    (typing : HaveTypes context exprs tys) : ∀ ref ∈ freeUsesAll exprs, context.Sees ref := by
  cases typing with
  | nil => exact fun _ used => absurd used List.not_mem_nil
  | cons head tail => exact List.forall_mem_append.mpr ⟨head.sees, tail.sees⟩

end

end Expr

theorem Program.HasType.sees {context : Context} {program : Program} {ty : Ty}
    (typing : program.HasType context ty) : ∀ ref ∈ program.freeUses, context.Sees ref := by
  induction typing with
  | entry entry => exact entry.sees
  | binding _ value _ ih =>
      rw [freeUses, freeUsesFrom, List.forall_mem_append]
      refine ⟨value.sees, fun ref used => ?_⟩
      obtain ⟨used, other⟩ := List.mem_filter.mp used
      exact Context.sees_of_addGlobal (ih ref used) (by simpa using other)

/-- In a program that is verified by itself, no use is free. -/
theorem Program.freeUses_of_verify {program verified : Program}
    (accepted : program.verify = .ok verified) : program.freeUses = [] := by
  obtain ⟨typing, -⟩ := verify_eq_ok_iff.mp accepted
  refine List.eq_nil_iff_forall_not_mem.mpr fun ref used => ?_
  exact Context.not_sees_empty (typing.sees ref used)

/-! ## What is undefined is free -/

namespace Expr

theorem checkParams_ne_undefined {params : List Ref} {ref : Ref} :
    checkParams params ≠ .error (.undefined ref) := by
  unfold checkParams
  repeat' split
  all_goals exact nofun

theorem deriveApplication_ne_undefined {ty calleeTy : Ty} {callee : Expr}
    {arguments : List Expr} {argumentTys : List Ty} {ref : Ref} :
    deriveApplication ty callee arguments argumentTys calleeTy ≠ .error (.undefined ref) := by
  unfold deriveApplication
  repeat' split
  all_goals exact nofun

theorem deriveLambda_ne_undefined {ty bodyTy : Ty} {params : List Ref} {ref : Ref} :
    deriveLambda ty params bodyTy ≠ .error (.undefined ref) := by
  unfold deriveLambda
  simp only
  split <;> exact nofun

mutual

/-- A reference is reported as undefined only where it is used freely: a lambda whose
parameters are not all parameters is refused before its body is looked at. -/
theorem mem_freeUses_of_run_verify {expr : Expr} {context final : Context} {ref : Ref}
    (run : expr.verify.run context = (.error (.undefined ref), final)) :
    ref.IsUnresolved ∧ ref ∈ expr.freeUses := by
  cases expr with
  | var used =>
      obtain ⟨refused, -⟩ := run_verify_var_eq_error_iff.mp run
      obtain ⟨unresolved, rfl⟩ := Context.typeOf_eq_undefined_iff.mp refused
      exact ⟨unresolved, List.mem_cons_self⟩
  | int value => cases run
  | bool value => cases run
  | app ty callee arguments =>
      rw [freeUses, List.mem_append]
      by_cases none : arguments = []
      · subst none
        cases run
      rcases (run_verify_app_eq_error_iff none).mp run with
        run | ⟨_, -, run | ⟨_, -, refused, -⟩⟩
      · obtain ⟨unresolved, used⟩ := mem_freeUsesAll_of_run_verifyAll run
        exact ⟨unresolved, .inr used⟩
      · obtain ⟨unresolved, used⟩ := mem_freeUses_of_run_verify run
        exact ⟨unresolved, .inl used⟩
      · exact absurd refused deriveApplication_ne_undefined
  | lambda ty params body =>
      rcases run_verify_lambda_eq_error_iff.mp run with
        ⟨refused, -⟩ | ⟨accepted, run | ⟨_, -, refused, -⟩⟩
      · exact absurd refused checkParams_ne_undefined
      · obtain ⟨-, params⟩ := checkParams_eq_ok_iff.mp accepted
        obtain ⟨unresolved, used⟩ := mem_freeUses_of_run_verify run
        have foreign : ref ∉ _ := fun bound => by
          cases (params ref bound).1.symm.trans unresolved
        exact ⟨unresolved, List.mem_filter.mpr ⟨used, by simpa using foreign⟩⟩
      · exact absurd refused deriveLambda_ne_undefined

theorem mem_freeUsesAll_of_run_verifyAll {exprs : List Expr} {context final : Context} {ref : Ref}
    (run : (verifyAll exprs).run context = (.error (.undefined ref), final)) :
    ref.IsUnresolved ∧ ref ∈ freeUsesAll exprs := by
  cases exprs with
  | nil => cases run
  | cons expr exprs =>
      rw [freeUsesAll, List.mem_append]
      rcases run_verifyAll_cons_eq_error_iff.mp run with run | ⟨_, -, run⟩
      · obtain ⟨unresolved, used⟩ := mem_freeUses_of_run_verify run
        exact ⟨unresolved, .inl used⟩
      · obtain ⟨unresolved, used⟩ := mem_freeUsesAll_of_run_verifyAll run
        exact ⟨unresolved, .inr used⟩

end

end Expr

theorem Binding.mem_freeUses_of_run_verify {binding : Binding} {context final : Context}
    {ref : Ref} (run : binding.verify.run context = (.error (.undefined ref), final)) :
    ref.IsUnresolved ∧ ref ∈ binding.value.freeUses := by
  rcases run_verify_eq_error_iff.mp run with run | ⟨derived, -, undefined, -⟩
  · exact Expr.mem_freeUses_of_run_verify run
  · unfold check at undefined
    repeat' split at undefined
    all_goals cases undefined

theorem Program.mem_freeUses_of_run_verifyPass {program : Program} {context final : Context}
    {ref : Ref} (run : program.verifyPass.run context = (.error (.undefined ref), final)) :
    ref.IsUnresolved ∧ ref ∈ program.freeUses := by
  obtain ⟨bindings, entry⟩ := program
  induction bindings generalizing context with
  | nil => exact Expr.mem_freeUses_of_run_verify run
  | cons binding bindings ih =>
      rw [freeUses, freeUsesFrom, List.mem_append]
      rcases run_verifyPass_cons_eq_error_iff.mp run with run | ⟨bound, run⟩
      · obtain ⟨unresolved, used⟩ := Binding.mem_freeUses_of_run_verify run
        exact ⟨unresolved, .inl used⟩
      · obtain ⟨global, -⟩ := Binding.run_verify_eq_ok_iff.mp bound
        obtain ⟨unresolved, used⟩ := ih run
        have other : ref ≠ binding.name := by
          rintro rfl
          cases global.symm.trans unresolved
        exact ⟨unresolved, .inr (List.mem_filter.mpr ⟨used, by simpa using other⟩)⟩

theorem Program.mem_freeUses_of_verify {program : Program} {ref : Ref}
    (refused : program.verify = .error (.undefined ref)) : ref ∈ program.freeUses := by
  rw [verify, Pass.evaluate_eq] at refused
  rcases run : program.verifyPass.run .empty with ⟨error | ty, final⟩
  · rw [run] at refused
    cases refused
    exact (mem_freeUses_of_run_verifyPass run).2
  · rw [run] at refused
    cases refused

/-- Verification and the analysis of free references agree about every program, in whatever
context it is verified. What is verified uses only what is visible freely, so nothing is free
in a program that is verified by itself. What is reported as undefined is unresolved and
free. -/
theorem Program.verifyPass_freeRefs (program : Program) (context : Context) :
    ∃ free, program.freeRefs = .ok free ∧
      (∀ ty, program.verifyPass.evaluate context = .ok ty → ∀ ref ∈ free,
        ref.scope = .param ∧ ref ∈ context.locals ∨
          ref.scope = .global ∧ ref ∈ context.globals) ∧
      (∀ verified, program.verify = .ok verified → free = ∅) ∧
      ∀ ref, program.verifyPass.evaluate context = .error (.undefined ref) →
        ref.scope = .unresolved ∧ ref ∈ free := by
  refine ⟨_, program.freeRefs_eq, fun ty accepted ref free => ?visible,
    fun verified accepted => ?none, fun ref refused => ?undefined⟩
  case visible =>
    have typing := evaluate_verifyPass_eq_ok_iff.mp accepted
    exact Context.sees_iff.mp (typing.sees ref (SortedSet.mem_ofList.mp free))
  case none => exact SortedSet.ofList_eq_empty_iff.mpr (freeUses_of_verify accepted)
  case undefined =>
    have run : program.verifyPass.run context = (.error (.undefined ref), _) :=
      Prod.ext refused rfl
    obtain ⟨unresolved, used⟩ := mem_freeUses_of_run_verifyPass run
    exact ⟨unresolved, SortedSet.mem_ofList.mpr used⟩

/-- A parameter that a refused program left visible is free where no lambda around its use
binds it, and visible all the same. -/
theorem Program.verifyPass_freeRefs_leftover :
    let param : Ref := ⟨⟨"x"⟩, 0, .int, .param⟩
    let refused : Program :=
      ⟨[], .lambda (.arrow .int .int) [param] (.var (.unresolved ⟨"y"⟩))⟩
    let next : Program := ⟨[], .var param⟩
    let context := (refused.verifyPass.run .empty).2
    refused.verifyPass.evaluate .empty = .error (.undefined (.unresolved ⟨"y"⟩)) ∧
      (∃ free, refused.freeRefs = .ok free ∧ .unresolved ⟨"y"⟩ ∈ free) ∧
      next.verifyPass.evaluate context = .ok .int ∧
      ∃ free, next.freeRefs = .ok free ∧ ∀ ref ∈ free,
        ref.scope = .param ∧ ref ∈ context.locals ∨
          ref.scope = .global ∧ ref ∈ context.globals := by
  intro param refused next context
  obtain ⟨free, found, -, -, undefined⟩ := verifyPass_freeRefs refused .empty
  obtain ⟨nextFree, nextFound, visible, -⟩ := verifyPass_freeRefs next context
  exact ⟨rfl, ⟨free, found, (undefined _ rfl).2⟩, rfl, nextFree, nextFound, visible .int rfl⟩

end SimplyTyped
