import Mathlib.Data.List.Nodup
import SimplyTyped.Proofs.Elaboration.FreeNames

/-!
# Elaboration and precision

An open tree is elaborated with unknown types where names have no binder. Supplying
definitions for the names can only replace unknown types, and can only turn a success
into a failure. The converse is what deferring checks has to get right: whatever can be
elaborated behind some definitions can be elaborated without them.

Everything follows from one comparison. `coarse.Coarsens fine` says that each name has a
type in `coarse` that its type in `fine` refines, and elaboration is monotone in it.
-/

set_option autoImplicit false

namespace SimplyTyped

/-! ## Types -/

namespace Ty

theorem RefinedBy.arrows {arguments finer : List Ty} {result finerResult : Ty}
    (each : List.Forall₂ RefinedBy arguments finer) (results : result.RefinedBy finerResult) :
    (Ty.arrows arguments result).RefinedBy (Ty.arrows finer finerResult) := by
  induction each with
  | nil => exact results
  | cons head _ ih => exact .arrow head ih

theorem RefinedBy.eq_of_all_known {tys finer : List Ty} (each : List.Forall₂ RefinedBy tys finer)
    (known : ∀ ty ∈ tys, ty.Known) : finer = tys := by
  induction each with
  | nil => rfl
  | cons head _ ih =>
      obtain ⟨headKnown, tailKnown⟩ := List.forall_mem_cons.mp known
      rw [head.eq_of_known headKnown, ih tailKnown]

/-- A deferred application is monotone. Where all parts are known already, they stay as
they are; otherwise nothing is refused and nothing is claimed. -/
theorem RefinedBy.applyDeferred {function finer : Ty} {arguments finerArguments : List Ty}
    {ty : Ty} (functions : function.RefinedBy finer)
    (each : List.Forall₂ RefinedBy arguments finerArguments)
    (typed : finer.applyDeferred finerArguments = .ok ty) :
    ∃ coarse, function.applyDeferred arguments = .ok coarse ∧ coarse.RefinedBy ty := by
  by_cases known : function.Known ∧ ∀ argument ∈ arguments, argument.Known
  · obtain ⟨functionKnown, argumentsKnown⟩ := known
    rw [functions.eq_of_known functionKnown, eq_of_all_known each argumentsKnown] at typed
    exact ⟨ty, typed, .refl ty⟩
  · exact ⟨.unknown, if_neg known, .unknown⟩

end Ty

/-! ## Environments -/

namespace Environment

/-- In `coarse`, names without a binder are kept, and every name becomes a reference whose
type is refined by the type it has in `fine`. -/
structure Coarsens (coarse fine : Environment) : Prop where
  keeps : coarse.policy = .keep
  ty : ∀ name, (coarse.refOf name).ty.RefinedBy (fine.refOf name).ty

variable {coarse fine : Environment}

theorem lookup_eq_refOf {environment : Environment} (keeps : environment.policy = .keep)
    (name : Name) : environment.lookup name = .ok (environment.refOf name) := by
  unfold lookup refOf
  cases environment.resolve? name with
  | some ref => rfl
  | none =>
      rw [keeps]
      rfl

theorem ty_refOf_withParams {environment : Environment} {annotations : List (Name × Ty)}
    (distinct : (annotations.map Prod.fst).Nodup) {name : Name} {ty : Ty}
    (annotated : (name, ty) ∈ annotations) :
    ((environment.withParams annotations).refOf name).ty = ty := by
  have bound : (environment.withParams annotations).refOf name ∈ environment.paramRefs annotations :=
    refOf_withParams_mem_iff.mpr (List.mem_map_of_mem annotated)
  have found := annotation_of_mem_paramRefs bound
  rw [name_refOf] at found
  have same := List.inj_on_of_nodup_map distinct found annotated rfl
  exact congrArg Prod.snd same

theorem Coarsens.issueAll (coarsens : coarse.Coarsens fine) (names : List Name) :
    (coarse.issueAll names).Coarsens (fine.issueAll names) :=
  ⟨coarsens.keeps, coarsens.ty⟩

theorem Coarsens.withParams (coarsens : coarse.Coarsens fine) {annotations : List (Name × Ty)}
    (distinct : (annotations.map Prod.fst).Nodup) :
    (coarse.withParams annotations).Coarsens (fine.withParams annotations) := by
  refine ⟨coarsens.keeps, fun name => ?_⟩
  by_cases member : name ∈ annotations.map Prod.fst
  · obtain ⟨⟨_, ty⟩, annotated, rfl⟩ := List.mem_map.mp member
    rw [ty_refOf_withParams distinct annotated, ty_refOf_withParams distinct annotated]
    exact .refl ty
  · rw [refOf_withParams_of_not_mem member, refOf_withParams_of_not_mem member]
    exact coarsens.ty name

theorem Coarsens.withParam (coarsens : coarse.Coarsens fine) (bound : Name) {ty finer : Ty}
    (refined : ty.RefinedBy finer) :
    (coarse.withParams [(bound, ty)]).Coarsens (fine.withParams [(bound, finer)]) := by
  have distinct : ∀ ty : Ty, ([(bound, ty)].map Prod.fst).Nodup := by simp
  refine ⟨coarsens.keeps, fun name => ?_⟩
  by_cases same : name = bound
  · subst same
    rw [ty_refOf_withParams (distinct ty) List.mem_cons_self,
      ty_refOf_withParams (distinct finer) List.mem_cons_self]
    exact refined
  · rw [refOf_withParams_of_not_mem (by simpa using same),
      refOf_withParams_of_not_mem (by simpa using same)]
    exact coarsens.ty name

theorem Coarsens.withGlobal (coarsens : coarse.Coarsens fine) (coarseAtRoot : coarse.frames = [])
    (fineAtRoot : fine.frames = []) (bound : Name) {ty finer : Ty}
    (refined : ty.RefinedBy finer) :
    (coarse.withGlobal bound ty).Coarsens (fine.withGlobal bound finer) := by
  refine ⟨coarsens.keeps, fun name => ?_⟩
  rw [refOf_withGlobal coarseAtRoot, refOf_withGlobal fineAtRoot]
  by_cases same : bound = name
  · rw [if_pos same, if_pos same]
    exact refined
  · rw [if_neg same, if_neg same]
    exact coarsens.ty name

theorem coarsens_empty (fine : Environment) : (empty .keep).Coarsens fine :=
  ⟨rfl, fun _ => .unknown⟩

end Environment

/-! ## Elaboration is monotone -/

mutual

theorem Elaborates.coarsen {fine : Environment} {tree : Tree} {expr : Expr}
    (derived : Elaborates fine tree expr) {coarse : Environment}
    (coarsens : coarse.Coarsens fine) :
    ∃ coarser, Elaborates coarse tree coarser ∧ coarser.ty.RefinedBy expr.ty := by
  cases derived with
  | @var _ name ref found =>
      refine ⟨_, .var (Environment.lookup_eq_refOf coarsens.keeps name), ?_⟩
      rw [← Environment.refOf_of_lookup found]
      exact coarsens.ty name
  | int => exact ⟨_, .int, .refl _⟩
  | bool => exact ⟨_, .bool, .refl _⟩
  | app some callee arguments typed =>
      obtain ⟨function, functionDerived, functions⟩ := callee.coarsen coarsens
      obtain ⟨values, valuesDerived, each⟩ := arguments.coarsen (coarsens.issueAll _)
      obtain ⟨ty, applied, refined⟩ := functions.applyDeferred each typed
      exact ⟨.app ty function values, .app some functionDerived valuesDerived applied, refined⟩
  | lambda accepted body =>
      obtain ⟨-, -, distinct, -⟩ := Param.checkAll_eq_ok_iff.mp accepted
      obtain ⟨coarser, bodyDerived, refined⟩ := body.coarsen (coarsens.withParams distinct)
      refine ⟨_, .lambda accepted bodyDerived, ?_⟩
      rw [Expr.abstract, Expr.abstract, Expr.ty, Expr.ty, Environment.paramRefs_map_ty,
        Environment.paramRefs_map_ty]
      exact .arrows (List.forall₂_same.mpr fun ty _ => .refl ty) refined
  | @letIn _ middle name tree _ value body ty valueDerived same bodyDerived typed =>
      subst same
      -- the parameter that the `let` becomes may have a coarser type along with its value
      obtain ⟨coarseValue, coarseValueDerived, values⟩ := valueDerived.coarsen coarsens
      have inner := (coarsens.issueAll tree.binders).withParam name values
      obtain ⟨coarseBody, coarseBodyDerived, bodies⟩ := bodyDerived.coarsen inner
      obtain ⟨ty, applied, refined⟩ :=
        (Ty.RefinedBy.arrow values bodies).applyDeferred (.cons values .nil) typed
      exact ⟨.app ty _ _, .letIn coarseValueDerived rfl coarseBodyDerived applied, refined⟩

theorem ElaboratesAll.coarsen {fine : Environment} {trees : List Tree} {exprs : List Expr}
    (derived : ElaboratesAll fine trees exprs) {coarse : Environment}
    (coarsens : coarse.Coarsens fine) :
    ∃ coarser, ElaboratesAll coarse trees coarser ∧
      List.Forall₂ Ty.RefinedBy (coarser.map Expr.ty) (exprs.map Expr.ty) := by
  cases derived with
  | nil => exact ⟨[], .nil, .nil⟩
  | cons head tail =>
      obtain ⟨expr, headDerived, refined⟩ := head.coarsen coarsens
      obtain ⟨exprs, tailDerived, each⟩ := tail.coarsen (coarsens.issueAll _)
      exact ⟨expr :: exprs, .cons headDerived tailDerived, .cons refined each⟩

end

theorem ElaboratesProgram.coarsen {fine : Environment} {tree : Tree} {program : Program}
    (derived : ElaboratesProgram fine tree program) (fineAtRoot : fine.frames = [])
    {coarse : Environment} (coarsens : coarse.Coarsens fine) (coarseAtRoot : coarse.frames = []) :
    ∃ coarser, ElaboratesProgram coarse tree coarser ∧ coarser.ty.RefinedBy program.ty := by
  induction derived generalizing coarse with
  | entry single entry =>
      obtain ⟨coarser, coarserDerived, refined⟩ := entry.coarsen coarsens
      exact ⟨⟨[], coarser⟩, .entry single coarserDerived, refined⟩
  | @letIn _ middle name tree _ value _ _ valueDerived same _ ih =>
      subst same
      obtain ⟨coarseValue, coarseValueDerived, values⟩ := valueDerived.coarsen coarsens
      have later := (coarsens.issueAll tree.binders).withGlobal coarseAtRoot fineAtRoot name values
      obtain ⟨⟨bindings, entry⟩, restDerived, refined⟩ := ih fineAtRoot later coarseAtRoot
      exact ⟨_, .letIn coarseValueDerived rfl restDerived, refined⟩

/-! ## Definitions in front of a tree -/

/-- Behind definitions, a tree is elaborated where they are in sight. -/
theorem ElaboratesProgram.of_letsIn {lets : List (Name × Tree)} {tree : Tree}
    {environment : Environment} {program : Program}
    (derived : ElaboratesProgram environment (Tree.letsIn lets tree) program)
    (atRoot : environment.frames = []) :
    ∃ later rest, later.frames = [] ∧ ElaboratesProgram later tree rest ∧
      rest.entry = program.entry := by
  induction lets generalizing environment program with
  | nil => exact ⟨environment, program, atRoot, derived, rfl⟩
  | cons definition lets ih =>
      cases derived with
      | entry single => cases single
      | letIn _ same restDerived =>
          subst same
          obtain ⟨later, rest, laterAtRoot, laterDerived, entry⟩ := ih restDerived atRoot
          exact ⟨later, rest, laterAtRoot, laterDerived, entry⟩

/-- Whatever can be elaborated behind some definitions can be elaborated without them, and
its type is then the same up to unknown types in it. So no definitions mend a tree that is
refused where unresolved names are kept. -/
theorem Tree.toProgram_of_letsIn (lets : List (Name × Tree)) (tree : Tree) (policy : Policy) :
    (∀ refined, (letsIn lets tree).toProgram policy = .ok refined →
      ∃ program, tree.toProgram .keep = .ok program ∧ program.ty.RefinedBy refined.ty) ∧
    (∀ error, tree.toProgram .keep = .error error →
      ∃ other, (letsIn lets tree).toProgram policy = .error other) := by
  have elaborated : ∀ refined, (letsIn lets tree).toProgram policy = .ok refined →
      ∃ program, tree.toProgram .keep = .ok program ∧ program.ty.RefinedBy refined.ty := by
    intro refined outcome
    have derived := toProgram_eq_ok_iff.mp outcome
    obtain ⟨later, rest, atRoot, restDerived, same⟩ := derived.of_letsIn rfl
    obtain ⟨program, coarseDerived, precise⟩ :=
      restDerived.coarsen atRoot (Environment.coarsens_empty later) rfl
    rw [Program.ty, Program.ty, same] at precise
    exact ⟨program, toProgram_eq_ok_iff.mpr coarseDerived, precise⟩
  refine ⟨elaborated, fun error refused => ?_⟩
  cases outcome : (letsIn lets tree).toProgram policy with
  | error other => exact ⟨other, rfl⟩
  | ok refined =>
      obtain ⟨program, accepted, -⟩ := elaborated refined outcome
      rw [refused] at accepted
      cases accepted

/-- Deferral reaches into the result of a lambda, and a definition settles it there. -/
theorem Tree.toProgram_of_letsIn_lambda :
    let tree := Tree.lambda [⟨⟨"x"⟩, some .int⟩]
      (.letIn ⟨"y"⟩ (.app (.var ⟨"f"⟩) [.var ⟨"x"⟩]) (.var ⟨"y"⟩))
    let lets := [(⟨"g"⟩, Tree.bool true), (⟨"f"⟩, Tree.lambda [⟨⟨"x"⟩, some .int⟩] (.var ⟨"g"⟩))]
    ∃ refined program, (letsIn lets tree).toProgram .reject = .ok refined ∧
      tree.toProgram .keep = .ok program ∧ program.ty.RefinedBy refined.ty ∧
      program.ty = .arrow .int .unknown ∧ refined.ty = .arrow .int .bool := by
  intro tree lets
  obtain ⟨refined, accepted, refinedTy⟩ : ∃ refined, (letsIn lets tree).toProgram .reject =
      .ok refined ∧ refined.ty = .arrow .int .bool := ⟨_, rfl, rfl⟩
  obtain ⟨program, kept, precise⟩ := (toProgram_of_letsIn lets tree .reject).1 refined accepted
  refine ⟨refined, program, accepted, kept, precise, ?_, refinedTy⟩
  cases kept
  rfl

end SimplyTyped
