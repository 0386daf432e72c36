import SimplyTyped.Core.Occurrences
import SimplyTyped.Core.Typing
import SimplyTyped.Pass.Lemmas
import SimplyTyped.Proofs.Ty.Application

/-!
# Verification decides typing

Verification is a walk that keeps what is visible in its state and stops at the first
disagreement; the typing rules know neither a state nor an order. On every core program
the two agree: a run succeeds exactly where the rules derive a type, and it leaves the
parameters as they were. The rules ask for known types at the leaves only, and from
there they spread to every type in the program.
-/

set_option autoImplicit false

namespace SimplyTyped

/-! ## What is visible -/

namespace Context

variable {context : Context} {params : List Ref} {name ref : Ref}

theorem sees_iff :
    context.Sees ref ↔
      ref.scope = .param ∧ ref ∈ context.locals ∨ ref.scope = .global ∧ ref ∈ context.globals := by
  unfold Sees
  cases ref.scope <;> simp

theorem leave_enter (context : Context) (params : List Ref) :
    (context.enter params).leave context.locals.length = context := by
  simp [enter, leave]

theorem sees_enter (sees : context.Sees ref) : (context.enter params).Sees ref := by
  rw [sees_iff] at sees ⊢
  rcases sees with ⟨param, bound⟩ | global
  · exact .inl ⟨param, List.mem_append_left _ bound⟩
  · exact .inr global

theorem sees_addGlobal (sees : context.Sees ref) : (context.addGlobal name).Sees ref := by
  rw [sees_iff] at sees ⊢
  rcases sees with param | ⟨global, bound⟩
  · exact .inl param
  · exact .inr ⟨global, List.mem_append_left _ bound⟩

theorem typeOf_eq_ok_iff {ty : Ty} :
    context.typeOf ref = .ok ty ↔ context.Sees ref ∧ ref.ty.Known ∧ ty = ref.ty := by
  have resolved : context.Sees ref → ¬ ref.IsUnresolved := by
    intro sees unresolved
    rw [Sees, unresolved] at sees
    exact sees
  by_cases sees : context.Sees ref
  · by_cases known : ref.ty.Known
    · simp [typeOf, resolved sees, sees, known, eq_comm]
    · simp [typeOf, resolved sees, known]
  · by_cases unresolved : ref.IsUnresolved
    · simp [typeOf, unresolved, sees]
    · by_cases known : ref.ty.Known <;> simp [typeOf, unresolved, known, sees]

end Context

/-! ## What is checked at each node -/

namespace Expr

theorem checkParams_eq_ok_iff {params : List Ref} :
    checkParams params = .ok () ↔
      params ≠ [] ∧ ∀ param ∈ params, param.scope = .param ∧ param.ty.Known := by
  have scopes : params.find? (·.scope ≠ .param) = none ↔ ∀ param ∈ params, param.scope = .param := by
    simp
  have types : params.find? (¬ ·.ty.Known) = none ↔ ∀ param ∈ params, param.ty.Known := by
    simp
  simp only [imp_and, forall_and, ← scopes, ← types, checkParams]
  cases params with
  | nil => simp
  | cons head tail =>
      rw [if_neg (by simp)]
      cases (head :: tail).find? (·.scope ≠ .param) with
      | some param => simp
      | none => cases (head :: tail).find? (¬ ·.ty.Known) <;> simp

theorem deriveApplication_eq_ok_iff {ty calleeTy derived : Ty} {callee : Expr}
    {arguments : List Expr} {argumentTys : List Ty} :
    deriveApplication ty callee arguments argumentTys calleeTy = .ok derived ↔
      calleeTy = .arrows argumentTys ty ∧ derived = ty := by
  rw [← Ty.apply_eq_ok_iff, deriveApplication]
  cases calleeTy.apply argumentTys with
  | error refusal => simp
  | ok result =>
      by_cases same : result = ty
      · simp [same, eq_comm]
      · simp [same]

theorem deriveLambda_eq_ok_iff {ty bodyTy derived : Ty} {params : List Ref} :
    deriveLambda ty params bodyTy = .ok derived ↔
      ty = .arrows (params.map (·.ty)) bodyTy ∧ derived = ty := by
  rw [deriveLambda]
  by_cases same : Ty.arrows (params.map (·.ty)) bodyTy = ty
  · simp [same, eq_comm]
  · simp [same, Ne.symm same]

/-! ## Expressions -/

theorem HasType.ty_eq {context : Context} {expr : Expr} {ty : Ty}
    (typing : HasType context expr ty) : ty = expr.ty := by
  cases typing <;> rfl

theorem hasType_var_iff {context : Context} {ref : Ref} {ty : Ty} :
    HasType context (.var ref) ty ↔ context.Sees ref ∧ ref.ty.Known ∧ ty = ref.ty := by
  rw [Context.sees_iff]
  constructor
  · intro typing
    cases typing with
    | param param bound known => exact ⟨.inl ⟨param, bound⟩, known, rfl⟩
    | global global bound known => exact ⟨.inr ⟨global, bound⟩, known, rfl⟩
  · rintro ⟨⟨param, bound⟩ | ⟨global, bound⟩, known, rfl⟩
    · exact .param param bound known
    · exact .global global bound known

theorem run_verify_var {ref : Ref} {context final : Context} {ty : Ty} :
    (var ref).verify.run context = (.ok ty, final) ↔
      HasType context (var ref) ty ∧ final = context := by
  rw [hasType_var_iff, ← Context.typeOf_eq_ok_iff, verify, Pass.run_step, Prod.mk.injEq,
    eq_comm (a := context)]

mutual

theorem hasType_of_run_verify {expr : Expr} {context final : Context} {ty : Ty}
    (run : expr.verify.run context = (.ok ty, final)) :
    HasType context expr ty ∧ final = context := by
  cases expr with
  | var ref => exact run_verify_var.mp run
  | int value =>
      cases run
      exact ⟨.int, rfl⟩
  | bool value =>
      cases run
      exact ⟨.bool, rfl⟩
  | app stated callee arguments =>
      rw [verify] at run
      split at run
      · cases run
      · next some =>
          simp only [Pass.run_bind_eq_ok, Pass.run_lift] at run
          obtain ⟨argumentTys, middle, argumentsRun, calleeTy, last, calleeRun, ends⟩ := run
          obtain ⟨argumentsTyping, rfl⟩ := haveTypes_of_run_verifyAll argumentsRun
          obtain ⟨calleeTyping, rfl⟩ := hasType_of_run_verify calleeRun
          obtain ⟨derived, rfl⟩ := Prod.mk.inj ends
          obtain ⟨rfl, rfl⟩ := deriveApplication_eq_ok_iff.mp derived
          exact ⟨.app (by simpa using some) calleeTyping argumentsTyping, rfl⟩
  | lambda stated params body =>
      simp only [verify, Pass.run_bind_eq_ok, Pass.run_lift, Pass.run_gets, Pass.run_modify] at run
      obtain ⟨_, start, checked, depth, _, marked, _, inner, entered, bodyTy, last, bodyRun, _,
        left, leaves, ends⟩ := run
      obtain ⟨accepted, rfl⟩ := Prod.mk.inj checked
      obtain ⟨some, params⟩ := checkParams_eq_ok_iff.mp accepted
      cases marked
      cases entered
      obtain ⟨bodyTyping, rfl⟩ := hasType_of_run_verify bodyRun
      cases leaves
      rw [Context.leave_enter] at ends
      obtain ⟨derived, rfl⟩ := Prod.mk.inj ends
      obtain ⟨rfl, rfl⟩ := deriveLambda_eq_ok_iff.mp derived
      exact ⟨.lambda some params bodyTyping, rfl⟩

theorem haveTypes_of_run_verifyAll {exprs : List Expr} {context final : Context} {tys : List Ty}
    (run : (verifyAll exprs).run context = (.ok tys, final)) :
    HaveTypes context exprs tys ∧ final = context := by
  cases exprs with
  | nil =>
      cases run
      exact ⟨.nil, rfl⟩
  | cons expr exprs =>
      simp only [verifyAll, Pass.run_bind_eq_ok, Pass.run_pure] at run
      obtain ⟨ty, middle, headRun, rest, last, tailRun, ends⟩ := run
      cases ends
      obtain ⟨headTyping, rfl⟩ := hasType_of_run_verify headRun
      obtain ⟨tailTyping, rfl⟩ := haveTypes_of_run_verifyAll tailRun
      exact ⟨.cons headTyping tailTyping, rfl⟩

end

mutual

theorem HasType.run_verify {context : Context} {expr : Expr} {ty : Ty}
    (typing : HasType context expr ty) : expr.verify.run context = (.ok ty, context) := by
  cases typing with
  | param param bound known => exact run_verify_var.mpr ⟨.param param bound known, rfl⟩
  | global global bound known => exact run_verify_var.mpr ⟨.global global bound known, rfl⟩
  | int => rfl
  | bool => rfl
  | app some callee arguments =>
      rw [verify, if_neg (by simpa using some)]
      simp only [Pass.run_bind_eq_ok, Pass.run_lift]
      refine ⟨_, _, arguments.run_verifyAll, _, _, callee.run_verify, Prod.ext ?_ rfl⟩
      exact deriveApplication_eq_ok_iff.mpr ⟨rfl, rfl⟩
  | lambda some params body =>
      have accepted := checkParams_eq_ok_iff.mpr ⟨some, params⟩
      simp only [verify, Pass.run_bind_eq_ok, Pass.run_lift, Pass.run_gets, Pass.run_modify]
      refine ⟨_, _, Prod.ext accepted rfl, _, _, rfl, _, _, rfl, _, _, body.run_verify, _, _, rfl, ?_⟩
      rw [Context.leave_enter]
      exact Prod.ext (deriveLambda_eq_ok_iff.mpr ⟨rfl, rfl⟩) rfl

theorem HaveTypes.run_verifyAll {context : Context} {exprs : List Expr} {tys : List Ty}
    (typing : HaveTypes context exprs tys) :
    (verifyAll exprs).run context = (.ok tys, context) := by
  cases typing with
  | nil => rfl
  | cons head tail =>
      simp only [verifyAll, Pass.run_bind_eq_ok]
      exact ⟨_, _, head.run_verify, _, _, tail.run_verifyAll, rfl⟩

end

theorem run_verify_eq_ok_iff {expr : Expr} {context final : Context} {ty : Ty} :
    expr.verify.run context = (.ok ty, final) ↔ HasType context expr ty ∧ final = context := by
  constructor
  · exact hasType_of_run_verify
  · rintro ⟨typing, rfl⟩
    exact typing.run_verify

/-! ## Failing runs

One equivalence for each construct that has parts: a run fails in the first part that fails, or
in the check that comes after them. What succeeds before leaves the context as it was. -/

section failure

variable {context final : Context} {error : Error}

theorem run_verify_var_eq_error_iff {ref : Ref} :
    (var ref).verify.run context = (.error error, final) ↔
      context.typeOf ref = .error error ∧ final = context := by
  rw [verify, Pass.run_step, Prod.mk.injEq, eq_comm (a := context)]

theorem run_verify_app_eq_error_iff {ty : Ty} {callee : Expr} {arguments : List Expr}
    (some : arguments ≠ []) :
    (app ty callee arguments).verify.run context = (.error error, final) ↔
      (verifyAll arguments).run context = (.error error, final) ∨
        ∃ argumentTys, (verifyAll arguments).run context = (.ok argumentTys, context) ∧
          (callee.verify.run context = (.error error, final) ∨
            ∃ calleeTy, callee.verify.run context = (.ok calleeTy, context) ∧
              deriveApplication ty callee arguments argumentTys calleeTy = .error error ∧
              final = context) := by
  rw [verify, if_neg (by simpa using some)]
  simp only [Pass.run_bind_eq_error, Pass.run_lift]
  constructor
  · intro failed
    rcases failed with run | ⟨argumentTys, _, argumentsRun, run | ⟨calleeTy, _, calleeRun, ends⟩⟩
    · exact .inl run
    · obtain ⟨-, rfl⟩ := haveTypes_of_run_verifyAll argumentsRun
      exact .inr ⟨argumentTys, argumentsRun, .inl run⟩
    · obtain ⟨-, rfl⟩ := haveTypes_of_run_verifyAll argumentsRun
      obtain ⟨-, rfl⟩ := hasType_of_run_verify calleeRun
      obtain ⟨refused, rfl⟩ := Prod.mk.inj ends
      exact .inr ⟨argumentTys, argumentsRun, .inr ⟨calleeTy, calleeRun, refused, rfl⟩⟩
  · intro failed
    rcases failed with run | ⟨argumentTys, argumentsRun, run | ⟨calleeTy, calleeRun, refused, rfl⟩⟩
    · exact .inl run
    · exact .inr ⟨_, _, argumentsRun, .inl run⟩
    · exact .inr ⟨_, _, argumentsRun, .inr ⟨_, _, calleeRun, Prod.ext refused rfl⟩⟩

theorem run_verify_lambda_eq_error_iff {ty : Ty} {params : List Ref} {body : Expr} :
    (lambda ty params body).verify.run context = (.error error, final) ↔
      checkParams params = .error error ∧ final = context ∨
        checkParams params = .ok () ∧
          (body.verify.run (context.enter params) = (.error error, final) ∨
            ∃ bodyTy, body.verify.run (context.enter params) =
                (.ok bodyTy, context.enter params) ∧
              deriveLambda ty params bodyTy = .error error ∧ final = context) := by
  simp only [verify, Pass.run_bind_eq_error, Pass.run_lift, Pass.run_gets, Pass.run_modify]
  constructor
  · intro failed
    rcases failed with ends | ⟨_, _, checked, ends | ⟨_, _, marked, ends | ⟨_, _, entered, run |
      ⟨bodyTy, _, bodyRun, ends | ⟨_, _, left, ends⟩⟩⟩⟩⟩
    · obtain ⟨refused, rfl⟩ := Prod.mk.inj ends
      exact .inl ⟨refused, rfl⟩
    · cases ends
    · cases ends
    · obtain ⟨accepted, rfl⟩ := Prod.mk.inj checked
      cases marked
      cases entered
      exact .inr ⟨accepted, .inl run⟩
    · cases ends
    · obtain ⟨accepted, rfl⟩ := Prod.mk.inj checked
      cases marked
      cases entered
      obtain ⟨-, rfl⟩ := hasType_of_run_verify bodyRun
      cases left
      obtain ⟨refused, rfl⟩ := Prod.mk.inj ends
      exact .inr ⟨accepted, .inr ⟨bodyTy, bodyRun, refused, Context.leave_enter ..⟩⟩
  · intro failed
    rcases failed with ⟨refused, rfl⟩ | ⟨accepted, run | ⟨bodyTy, bodyRun, refused, rfl⟩⟩
    · exact .inl (Prod.ext refused rfl)
    · exact .inr ⟨_, _, Prod.ext accepted rfl, .inr ⟨_, _, rfl, .inr ⟨_, _, rfl, .inl run⟩⟩⟩
    · refine .inr ⟨_, _, Prod.ext accepted rfl, .inr ⟨_, _, rfl, .inr ⟨_, _, rfl,
        .inr ⟨_, _, bodyRun, .inr ⟨_, _, rfl, ?_⟩⟩⟩⟩⟩
      exact Prod.ext refused (Context.leave_enter ..)

theorem run_verifyAll_cons_eq_error_iff {expr : Expr} {exprs : List Expr} :
    (verifyAll (expr :: exprs)).run context = (.error error, final) ↔
      expr.verify.run context = (.error error, final) ∨
        ∃ ty, expr.verify.run context = (.ok ty, context) ∧
          (verifyAll exprs).run context = (.error error, final) := by
  simp only [verifyAll, Pass.run_bind_eq_error, Pass.run_pure]
  constructor
  · intro failed
    rcases failed with run | ⟨ty, _, headRun, run | ⟨_, _, -, ends⟩⟩
    · exact .inl run
    · obtain ⟨-, rfl⟩ := hasType_of_run_verify headRun
      exact .inr ⟨ty, headRun, run⟩
    · cases ends
  · intro failed
    rcases failed with run | ⟨ty, headRun, run⟩
    · exact .inl run
    · exact .inr ⟨_, _, headRun, .inl run⟩

end failure

mutual

/-- Known types at the leaves make every type known: an application has a part of the type
of its callee. -/
theorem HasType.known {context : Context} {expr : Expr} {ty : Ty}
    (typing : HasType context expr ty) : ∀ occurring ∈ expr.tys, occurring.Known := by
  cases typing with
  | param _ _ known => simpa [tys] using known
  | global _ _ known => simpa [tys] using known
  | int => simp [tys]
  | bool => simp [tys]
  | @app _ callee _ _ _ _ calleeTyping argumentsTyping =>
      have calleeKnown := calleeTyping.known callee.ty callee.ty_mem_tys
      rw [← calleeTyping.ty_eq, Ty.known_arrows] at calleeKnown
      rw [tys, List.forall_mem_cons, List.forall_mem_append]
      exact ⟨calleeKnown.2, calleeTyping.known, argumentsTyping.known⟩
  | @lambda _ params body _ _ accepted bodyTyping =>
      have bodyKnown := bodyTyping.known body.ty body.ty_mem_tys
      rw [← bodyTyping.ty_eq] at bodyKnown
      have paramsKnown : ∀ ty ∈ params.map (·.ty), ty.Known := by
        intro ty member
        obtain ⟨param, bound, rfl⟩ := List.mem_map.mp member
        exact (accepted param bound).2
      rw [tys, List.forall_mem_cons, List.forall_mem_append]
      exact ⟨Ty.known_arrows.mpr ⟨paramsKnown, bodyKnown⟩, paramsKnown, bodyTyping.known⟩

theorem HaveTypes.known {context : Context} {exprs : List Expr} {tys : List Ty}
    (typing : HaveTypes context exprs tys) : ∀ occurring ∈ tysAll exprs, occurring.Known := by
  cases typing with
  | nil => exact fun _ member => absurd member List.not_mem_nil
  | cons head tail => exact List.forall_mem_append.mpr ⟨head.known, tail.known⟩

end

end Expr

/-! ## Programs -/

theorem Binding.run_verify_eq_ok_iff {binding : Binding} {context final : Context} {done : Unit} :
    binding.verify.run context = (.ok done, final) ↔
      binding.name.scope = .global ∧ binding.value.HasType context binding.name.ty ∧
        final = context.addGlobal binding.name := by
  have checked : ∀ derived, binding.check derived = .ok () ↔
      binding.name.scope = .global ∧ binding.name.ty = derived := by
    intro derived
    by_cases global : binding.name.scope = .global
    · by_cases same : binding.name.ty = derived <;> simp [check, global, same]
    · simp [check, global]
  simp only [verify, Pass.run_bind_eq_ok, Expr.run_verify_eq_ok_iff, Pass.run_lift,
    Pass.run_modify]
  constructor
  · rintro ⟨derived, _, ⟨typing, rfl⟩, _, _, outcome, ends⟩
    obtain ⟨accepted, rfl⟩ := Prod.mk.inj outcome
    obtain ⟨global, rfl⟩ := (checked derived).mp accepted
    cases ends
    exact ⟨global, typing, rfl⟩
  · rintro ⟨global, typing, rfl⟩
    have accepted := (checked binding.name.ty).mpr ⟨global, rfl⟩
    exact ⟨_, _, ⟨typing, rfl⟩, _, _, Prod.ext accepted rfl, rfl⟩

theorem Binding.run_verify_eq_error_iff {binding : Binding} {context final : Context}
    {error : Error} :
    binding.verify.run context = (.error error, final) ↔
      binding.value.verify.run context = (.error error, final) ∨
        ∃ derived, binding.value.verify.run context = (.ok derived, context) ∧
          binding.check derived = .error error ∧ final = context := by
  simp only [verify, Pass.run_bind_eq_error, Pass.run_lift, Pass.run_modify]
  constructor
  · intro failed
    rcases failed with run | ⟨derived, _, valueRun, ends | ⟨_, _, -, ends⟩⟩
    · exact .inl run
    · obtain ⟨-, rfl⟩ := Expr.hasType_of_run_verify valueRun
      obtain ⟨refused, rfl⟩ := Prod.mk.inj ends
      exact .inr ⟨derived, valueRun, refused, rfl⟩
    · cases ends
  · intro failed
    rcases failed with run | ⟨derived, valueRun, refused, rfl⟩
    · exact .inl run
    · exact .inr ⟨derived, _, valueRun, .inl (Prod.ext refused rfl)⟩

namespace Program

theorem verifyPass_cons (binding : Binding) (bindings : List Binding) (entry : Expr) :
    verifyPass ⟨binding :: bindings, entry⟩ = (do
      binding.verify
      verifyPass ⟨bindings, entry⟩) := by
  simp only [verifyPass, PassT.traverse, bind_assoc, pure_bind]
  rfl

theorem run_verifyPass_cons_eq_error_iff {binding : Binding} {bindings : List Binding}
    {entry : Expr} {context final : Context} {error : Error} :
    (verifyPass ⟨binding :: bindings, entry⟩).run context = (.error error, final) ↔
      binding.verify.run context = (.error error, final) ∨
        binding.verify.run context = (.ok (), context.addGlobal binding.name) ∧
          (verifyPass ⟨bindings, entry⟩).run (context.addGlobal binding.name) =
            (.error error, final) := by
  rw [verifyPass_cons, Pass.run_bind_eq_error]
  refine or_congr_right ⟨?_, fun ⟨bound, run⟩ => ⟨_, _, bound, run⟩⟩
  intro failed
  obtain ⟨_, _, bound, run⟩ := failed
  obtain ⟨-, -, rfl⟩ := Binding.run_verify_eq_ok_iff.mp bound
  exact ⟨bound, run⟩

/-- A program is verified exactly where the rules give it a type, and the names of its
bindings are visible afterwards. -/
theorem run_verifyPass_eq_ok_iff {program : Program} {context final : Context} {ty : Ty} :
    program.verifyPass.run context = (.ok ty, final) ↔
      program.HasType context ty ∧
        final = ⟨context.globals ++ program.bindings.map (·.name), context.locals⟩ := by
  obtain ⟨bindings, entry⟩ := program
  induction bindings generalizing context with
  | nil =>
      have run : (verifyPass ⟨[], entry⟩).run context = entry.verify.run context := rfl
      rw [run, Expr.run_verify_eq_ok_iff, List.map_nil, List.append_nil]
      constructor
      · rintro ⟨typing, rfl⟩
        exact ⟨.entry typing, rfl⟩
      · rintro ⟨typing, rfl⟩
        cases typing with
        | entry typing => exact ⟨typing, rfl⟩
  | cons binding bindings ih =>
      simp only [verifyPass_cons, Pass.run_bind_eq_ok, Binding.run_verify_eq_ok_iff, ih]
      constructor
      · rintro ⟨_, _, ⟨global, value, rfl⟩, rest, rfl⟩
        refine ⟨.binding global value rest, ?_⟩
        simp [Context.addGlobal]
      · rintro ⟨typing, rfl⟩
        cases typing with
        | binding global value rest =>
            refine ⟨(), _, ⟨global, value, rfl⟩, rest, ?_⟩
            simp [Context.addGlobal]

theorem HasType.ty_eq {context : Context} {program : Program} {ty : Ty}
    (typing : program.HasType context ty) : ty = program.ty := by
  induction typing with
  | entry typing => exact typing.ty_eq
  | binding _ _ _ ih => exact ih

theorem HasType.known {context : Context} {program : Program} {ty : Ty}
    (typing : program.HasType context ty) : ∀ occurring ∈ program.tys, occurring.Known := by
  induction typing with
  | entry typing => exact typing.known
  | @binding _ binding _ _ _ _ value _ ih =>
      have nameKnown := value.known binding.value.ty binding.value.ty_mem_tys
      rw [← value.ty_eq] at nameKnown
      simp only [tys, List.flatMap_cons, List.append_assoc, List.cons_append,
        List.forall_mem_cons, List.forall_mem_append] at ih ⊢
      exact ⟨nameKnown, value.known, ih⟩

theorem evaluate_verifyPass_eq_ok_iff {program : Program} {context : Context} {ty : Ty} :
    program.verifyPass.evaluate context = .ok ty ↔ program.HasType context ty := by
  rw [Pass.evaluate_eq]
  constructor
  · intro outcome
    exact (run_verifyPass_eq_ok_iff.mp (Prod.ext outcome rfl)).1
  · intro typing
    rw [run_verifyPass_eq_ok_iff.mpr ⟨typing, rfl⟩]

theorem verify_eq_ok_iff {program verified : Program} :
    program.verify = .ok verified ↔ program.HasType .empty program.ty ∧ verified = program := by
  rw [verify]
  cases outcome : program.verifyPass.evaluate .empty with
  | error error =>
      have rejected : ¬ program.HasType .empty program.ty := by
        rw [← evaluate_verifyPass_eq_ok_iff, outcome]
        exact nofun
      simp [Except.map, rejected]
  | ok ty =>
      have typing := evaluate_verifyPass_eq_ok_iff.mp outcome
      cases typing.ty_eq
      simp [Except.map, typing, eq_comm]

/-- Verification decides typing: a program is handed back, and a type is derived for it,
exactly if the rules give it that type, which can only be its own. No type that occurs in a
verified program is unknown, not even in part. -/
theorem verify_iff_hasType (program : Program) :
    (program.verify = .ok program ↔ program.HasType .empty program.ty) ∧
    (∀ ty, program.verifyPass.evaluate .empty = .ok ty ↔ program.HasType .empty ty) ∧
    (∀ ty, program.HasType .empty ty → ty = program.ty) ∧
    (program.verify = .ok program → ∀ ty ∈ program.tys, ty.Known) := by
  refine ⟨?accepts, fun ty => evaluate_verifyPass_eq_ok_iff, fun ty typing => typing.ty_eq,
    fun verified => ?known⟩
  case accepts => simp [verify_eq_ok_iff]
  case known => exact (verify_eq_ok_iff.mp verified).1.known

/-- Neither a name that is bound twice nor a parameter that repeats another is in the way of
a type: a use only has to be one of what is visible. -/
theorem verify_iff_hasType_rebound :
    let name : Ref := ⟨⟨"x"⟩, 0, .int, .global⟩
    let param : Ref := ⟨⟨"x"⟩, 0, .int, .param⟩
    HasType .empty
      ⟨[⟨name, .int 1⟩, ⟨name, .var name⟩],
        .app .int
          (.lambda (.arrow .int (.arrow .int .int)) [param, param] (.var name))
          [.var name, .int 2]⟩
      .int :=
  ((verify_iff_hasType _).2.1 .int).mp rfl

end Program

end SimplyTyped
