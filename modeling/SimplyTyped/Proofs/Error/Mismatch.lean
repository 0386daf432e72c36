import SimplyTyped.Core.Traversal
import SimplyTyped.Proofs.Core.FailurePoint
import SimplyTyped.Proofs.Elaboration.Annotation
import SimplyTyped.Proofs.Elaboration.FailurePoint

/-!
# Type errors are genuine

Elaboration and verification both report a mismatch at one place only, after the operands of an
application have passed. Elaboration puts off an application to operands of unknown type, and
verification accepts no such operand, so what is reported never depends on an unresolved name.
-/

set_option autoImplicit false

namespace SimplyTyped

/-! ## Refused applications -/

namespace Mismatch

theorem genuine_ofRefusal (ty : Ty) {callee : Expr} {arguments : List Expr} {refusal : Refusal}
    (calleeKnown : callee.ty.Known) (argumentsKnown : ∀ argument ∈ arguments, argument.ty.Known)
    (refused : callee.ty.apply (arguments.map Expr.ty) = .error refusal) :
    (ofRefusal (.app ty callee arguments) (arguments.map Expr.ty) refusal).Genuine := by
  obtain ⟨before, found, after, rest, split, function, cause⟩ :=
    Ty.applyFrom_eq_error_iff.mp refused
  rcases cause with ⟨domain, codomain, rfl, differs, rfl⟩ | ⟨noFunction, rfl⟩
  · exact .argument calleeKnown argumentsKnown split function differs
  · -- the position is that of an argument, so nothing has to stand in for its type
    have position : (arguments.map Expr.ty).getD (0 + before.length) .unknown = found := by
      simp [split]
    rw [ofRefusal, position]
    exact .notFunction calleeKnown argumentsKnown split function noFunction

theorem Genuine.expected_ne {mismatch : Mismatch} (genuine : mismatch.Genuine) :
    mismatch.expected ≠ .function .unknown := by
  cases genuine with
  | argument => exact nofun
  | @notFunction _ _ arguments before argument _ _ _ known split _ _ =>
      intro same
      cases same
      have member : Ty.unknown ∈ arguments.map Expr.ty := by
        rw [split]
        exact List.mem_append_right _ List.mem_cons_self
      obtain ⟨operand, member, unknown⟩ := List.mem_map.mp member
      exact absurd (unknown ▸ known operand member) Ty.not_known_unknown

end Mismatch

/-! ## Operands of known type -/

namespace Expr

mutual

theorem ty_mem_tys_of_mem_uses {expr : Expr} {ref : Ref} (used : ref ∈ expr.uses) :
    ref.ty ∈ expr.tys := by
  cases expr with
  | var other =>
      rw [uses, List.mem_singleton] at used
      exact used ▸ List.mem_cons_self
  | int => cases used
  | bool => cases used
  | app ty callee arguments =>
      rw [uses, List.mem_append] at used
      refine List.mem_cons_of_mem _ (List.mem_append.mpr ?_)
      exact used.imp ty_mem_tys_of_mem_uses ty_mem_tysAll_of_mem_usesAll
  | lambda ty params body =>
      exact List.mem_cons_of_mem _ (List.mem_append_right _ (ty_mem_tys_of_mem_uses used))

theorem ty_mem_tysAll_of_mem_usesAll {exprs : List Expr} {ref : Ref}
    (used : ref ∈ usesAll exprs) : ref.ty ∈ tysAll exprs := by
  cases exprs with
  | nil => cases used
  | cons expr exprs =>
      rw [usesAll, List.mem_append] at used
      refine List.mem_append.mpr ?_
      exact used.imp ty_mem_tys_of_mem_uses ty_mem_tysAll_of_mem_usesAll

end

theorem ty_mem_tysAll {expr : Expr} {exprs : List Expr} (member : expr ∈ exprs) :
    expr.ty ∈ tysAll exprs := by
  induction exprs with
  | nil => cases member
  | cons head tail ih =>
      refine List.mem_append.mpr ?_
      rcases List.mem_cons.mp member with rfl | member
      · exact .inl (ty_mem_tys _)
      · exact .inr (ih member)

mutual

/-- An unknown type anywhere below leaves its mark on the type of an annotated expression. -/
theorem Annotated.known_of_mem_uses {expr : Expr} {visible : List Ref}
    (annotated : expr.Annotated visible) (known : expr.ty.Known) {ref : Ref}
    (used : ref ∈ expr.uses) : ref.ty.Known := by
  cases expr with
  | var other =>
      rw [uses, List.mem_singleton] at used
      exact used ▸ known
  | int => cases used
  | bool => cases used
  | app ty callee arguments =>
      obtain ⟨-, function, values, typed⟩ := annotated
      split at typed
      · next operands =>
          rcases List.mem_append.mp used with used | used
          · exact function.known_of_mem_uses operands.1 used
          · exact values.known_of_mem_usesAll operands.2 used
      · exact absurd (typed ▸ known) Ty.not_known_unknown
  | lambda ty params body =>
      obtain ⟨-, -, inner, rfl⟩ := annotated
      exact inner.known_of_mem_uses (Ty.known_arrows.mp known).2 used

theorem AllAnnotated.known_of_mem_usesAll {exprs : List Expr} {visible : List Ref}
    (annotated : AllAnnotated visible exprs) (known : ∀ expr ∈ exprs, expr.ty.Known) {ref : Ref}
    (used : ref ∈ usesAll exprs) : ref.ty.Known := by
  cases exprs with
  | nil => cases used
  | cons expr exprs =>
      obtain ⟨headKnown, tailKnown⟩ := List.forall_mem_cons.mp known
      rcases List.mem_append.mp used with used | used
      · exact annotated.1.known_of_mem_uses headKnown used
      · exact AllAnnotated.known_of_mem_usesAll annotated.2 tailKnown used

end

end Expr

namespace Mismatch

/-- A mismatch is grounded when it is genuine and no reference of unknown type is used in what
it reports. -/
structure Grounded (mismatch : Mismatch) : Prop where
  genuine : mismatch.Genuine
  known : ∀ ref ∈ mismatch.expr.uses, ref.ty.Known

theorem uses_ofRefusal (ty : Ty) (callee : Expr) (arguments : List Expr) (tys : List Ty)
    (refusal : Refusal) :
    (ofRefusal (.app ty callee arguments) tys refusal).expr.uses =
      callee.uses ++ Expr.usesAll arguments := by
  cases refusal <;> rfl

theorem grounded_ofRefusal (ty : Ty) {callee : Expr} {arguments : List Expr} {refusal : Refusal}
    (calleeKnown : callee.ty.Known) (argumentsKnown : ∀ argument ∈ arguments, argument.ty.Known)
    (inCallee : ∀ ref ∈ callee.uses, ref.ty.Known)
    (inArguments : ∀ ref ∈ Expr.usesAll arguments, ref.ty.Known)
    (refused : callee.ty.apply (arguments.map Expr.ty) = .error refusal) :
    (ofRefusal (.app ty callee arguments) (arguments.map Expr.ty) refusal).Grounded where
  genuine := genuine_ofRefusal ty calleeKnown argumentsKnown refused
  known ref used := by
    rw [uses_ofRefusal] at used
    exact (List.mem_append.mp used).elim (inCallee ref) (inArguments ref)

end Mismatch

/-! ## All other checks

Nothing but an application is ever refused as a mismatch.
-/

theorem Param.checkAll_ne_mismatch {params : List Param} {mismatch : Mismatch} :
    checkAll params ≠ .error (.mismatch mismatch) := by
  unfold checkAll
  split
  · exact nofun
  · cases annotations [] params <;> exact nofun

theorem Environment.lookup_ne_mismatch {environment : Environment} {name : Name}
    {mismatch : Mismatch} : environment.lookup name ≠ .error (.mismatch mismatch) := by
  unfold lookup
  split
  · exact nofun
  · split <;> exact nofun

theorem Context.typeOf_ne_mismatch {context : Context} {ref : Ref} {mismatch : Mismatch} :
    context.typeOf ref ≠ .error (.mismatch mismatch) := by
  unfold typeOf
  repeat' split
  all_goals exact nofun

theorem Expr.checkParams_ne_mismatch {params : List Ref} {mismatch : Mismatch} :
    checkParams params ≠ .error (.mismatch mismatch) := by
  unfold checkParams
  repeat' split
  all_goals exact nofun

theorem Expr.deriveLambda_ne_mismatch {ty bodyTy : Ty} {params : List Ref} {mismatch : Mismatch} :
    deriveLambda ty params bodyTy ≠ .error (.mismatch mismatch) := by
  intro refused
  rw [deriveLambda] at refused
  split at refused <;> cases refused

theorem Binding.check_ne_mismatch {binding : Binding} {derived : Ty} {mismatch : Mismatch} :
    binding.check derived ≠ .error (.mismatch mismatch) := by
  unfold check
  repeat' split
  all_goals exact nofun

/-! ## Elaboration -/

theorem Expr.grounded_of_applied {visible : List Ref} {callee : Expr} {arguments : List Expr}
    {mismatch : Mismatch} (function : callee.Annotated visible)
    (values : AllAnnotated visible arguments)
    (refused : callee.applied arguments = .error (.mismatch mismatch)) :
    mismatch.Grounded := by
  cases outcome : callee.ty.applyDeferred (arguments.map Expr.ty) with
  | ok ty => simp [applied, outcome] at refused
  | error refusal =>
      simp only [applied, outcome, Except.error.injEq, Error.mismatch.injEq] at refused
      subst refused
      obtain ⟨calleeKnown, known, refused⟩ := Ty.applyDeferred_eq_error_iff.mp outcome
      have argumentsKnown : ∀ argument ∈ arguments, argument.ty.Known := by simpa using known
      exact Mismatch.grounded_ofRefusal _ calleeKnown argumentsKnown
        (fun _ used => function.known_of_mem_uses calleeKnown used)
        (fun _ used => values.known_of_mem_usesAll argumentsKnown used) refused

namespace Tree

mutual

theorem FailsAt.grounded {environment : Environment} {tree : Tree} {depth : Nat}
    {mismatch : Mismatch} (fails : FailsAt environment tree depth (.mismatch mismatch)) :
    mismatch.Grounded := by
  cases fails with
  | var refused => exact absurd refused Environment.lookup_ne_mismatch
  | callee _ fails => exact fails.grounded
  | arguments _ fails => exact fails.grounded
  | application _ calleeRun argumentsRun refused =>
      obtain ⟨function, rfl⟩ := run_elaborate_eq_ok_iff.mp calleeRun
      obtain ⟨values, -⟩ := run_elaborateAll_eq_ok_iff.mp argumentsRun
      exact Expr.grounded_of_applied (function.annotated (List.Subset.refl _))
        (values.annotated (List.Subset.refl _)) refused
  | params refused => exact absurd refused Param.checkAll_ne_mismatch
  | body _ _ fails => exact fails.grounded
  | letValue fails => exact fails.grounded
  | letBody _ _ fails => exact fails.grounded

theorem SomeFailsAt.grounded {environment : Environment} {trees : List Tree} {depth : Nat}
    {mismatch : Mismatch} (fails : SomeFailsAt environment trees depth (.mismatch mismatch)) :
    mismatch.Grounded := by
  cases fails with
  | head fails => exact fails.grounded
  | tail _ fails => exact fails.grounded

end

theorem FailsAtRoot.grounded {environment : Environment} {tree : Tree} {bound : List Ref}
    {depth : Nat} {mismatch : Mismatch}
    (fails : FailsAtRoot environment tree bound depth (.mismatch mismatch)) :
    mismatch.Grounded := by
  generalize cause : Error.mismatch mismatch = error at fails
  induction fails with
  | entry _ fails | value fails =>
      subst cause
      exact fails.grounded
  | later _ _ _ ih => exact ih cause

end Tree

/-! ## Verification -/

namespace Expr

theorem HaveTypes.tys_eq {context : Context} {exprs : List Expr} {tys : List Ty}
    (typing : HaveTypes context exprs tys) : tys = exprs.map Expr.ty := by
  induction exprs generalizing tys with
  | nil =>
      cases typing
      rfl
  | cons expr exprs ih =>
      cases typing with
      | cons head tail => rw [head.ty_eq, ih tail, List.map_cons]

theorem grounded_of_deriveApplication {context : Context} {ty calleeTy : Ty} {callee : Expr}
    {arguments : List Expr} {argumentTys : List Ty} {mismatch : Mismatch}
    (function : HasType context callee calleeTy) (values : HaveTypes context arguments argumentTys)
    (refused : deriveApplication ty callee arguments argumentTys calleeTy =
      .error (.mismatch mismatch)) :
    mismatch.Grounded := by
  obtain rfl := function.ty_eq
  obtain rfl := values.tys_eq
  have argumentsKnown : ∀ argument ∈ arguments, argument.ty.Known :=
    fun argument member => values.known _ (ty_mem_tysAll member)
  rw [deriveApplication] at refused
  cases outcome : callee.ty.apply (arguments.map Expr.ty) with
  | ok derived =>
      simp only [outcome] at refused
      split at refused <;> cases refused
  | error refusal =>
      simp only [outcome, Except.error.injEq, Error.mismatch.injEq] at refused
      subst refused
      exact Mismatch.grounded_ofRefusal _ (function.known _ callee.ty_mem_tys) argumentsKnown
        (fun _ used => function.known _ (ty_mem_tys_of_mem_uses used))
        (fun _ used => values.known _ (ty_mem_tysAll_of_mem_usesAll used)) outcome

mutual

theorem FailsAt.grounded {context : Context} {expr : Expr} {entered : List Ref}
    {mismatch : Mismatch} (fails : FailsAt context expr entered (.mismatch mismatch)) :
    mismatch.Grounded := by
  cases fails with
  | var refused => exact absurd refused Context.typeOf_ne_mismatch
  | arguments fails => exact fails.grounded
  | callee _ _ fails => exact fails.grounded
  | application _ argumentsRun calleeRun refused =>
      exact grounded_of_deriveApplication (hasType_of_run_verify calleeRun).1
        (haveTypes_of_run_verifyAll argumentsRun).1 refused
  | params refused => exact absurd refused checkParams_ne_mismatch
  | body _ fails => exact fails.grounded
  | lambda _ _ refused => exact absurd refused deriveLambda_ne_mismatch

theorem SomeFailsAt.grounded {context : Context} {exprs : List Expr} {entered : List Ref}
    {mismatch : Mismatch} (fails : SomeFailsAt context exprs entered (.mismatch mismatch)) :
    mismatch.Grounded := by
  cases fails with
  | head fails => exact fails.grounded
  | tail _ fails => exact fails.grounded

end

end Expr

theorem Program.FailsAt.grounded {context : Context} {program : Program}
    {verified entered : List Ref} {mismatch : Mismatch}
    (fails : program.FailsAt context verified entered (.mismatch mismatch)) :
    mismatch.Grounded := by
  generalize cause : Error.mismatch mismatch = error at fails
  induction fails with
  | entry fails | value fails =>
      subst cause
      exact fails.grounded
  | name _ refused =>
      subst cause
      exact absurd refused Binding.check_ne_mismatch
  | later _ _ ih => exact ih cause

/-- Whatever has been elaborated or verified before, a type error is the fault of the
application that it reports: callee and arguments are of known type, and what the callee is
leaves no way to take the argument in question. No reference of unknown type is used in it, so
no name without a binder has to do with it, and no type that is expected is made up. -/
theorem genuine_of_reported {mismatch : Mismatch}
    (reported :
      (∃ (tree : Tree) (environment final : Environment),
        tree.elaborateProgram.run environment = (.error (.mismatch mismatch), final)) ∨
      ∃ (program : Program) (context final : Context),
        program.verifyPass.run context = (.error (.mismatch mismatch), final)) :
    mismatch.Genuine ∧ mismatch.expected ≠ .function .unknown ∧
      ∀ ref ∈ mismatch.expr.uses, ref.ty.Known := by
  have grounded : mismatch.Grounded := by
    rcases reported with ⟨tree, environment, final, run⟩ | ⟨program, context, final, run⟩
    · obtain ⟨bound, depth, fails⟩ := Tree.failsAtRoot_of_run_elaborateProgram run
      exact fails.grounded
    · obtain ⟨verified, entered, fails⟩ := Program.failsAt_of_run_verifyPass run
      exact fails.grounded
  exact ⟨grounded.genuine, grounded.genuine.expected_ne, grounded.known⟩

/-- The second argument is refused in both: of a function of one argument when a tree is
elaborated behind a deferred application, and for its type when a program is verified. -/
theorem genuine_of_reported_second :
    let f : Ref := ⟨⟨"f"⟩, 0, .arrow .int .bool, .param⟩
    let g : Ref := ⟨⟨"g"⟩, 0, .arrow .int (.arrow .bool .int), .global⟩
    let tree : Tree := .letIn ⟨"h"⟩ (.app (.var ⟨"k"⟩) [.int 1])
      (.lambda [⟨⟨"f"⟩, some (.arrow .int .bool)⟩] (.app (.var ⟨"f"⟩) [.int 1, .int 2]))
    let program : Program := ⟨[], .app .int (.var g) [.int 1, .int 2]⟩
    (∃ final, tree.elaborateProgram.run (.empty .keep) = (.error (.mismatch
        ⟨.app .unknown (.var f) [.int 1, .int 2], .function .int, .bool⟩), final)) ∧
      Mismatch.Genuine ⟨.app .unknown (.var f) [.int 1, .int 2], .function .int, .bool⟩ ∧
      (∃ final, program.verifyPass.run ⟨[g], []⟩ = (.error (.mismatch
        ⟨.app .int (.var g) [.int 1, .int 2], .type .bool, .int⟩), final)) ∧
      Mismatch.Genuine ⟨.app .int (.var g) [.int 1, .int 2], .type .bool, .int⟩ := by
  intro f g tree program
  exact ⟨⟨_, rfl⟩, (genuine_of_reported (.inl ⟨tree, .empty .keep, _, rfl⟩)).1,
    ⟨_, rfl⟩, (genuine_of_reported (.inr ⟨program, ⟨[g], []⟩, _, rfl⟩)).1⟩

end SimplyTyped
