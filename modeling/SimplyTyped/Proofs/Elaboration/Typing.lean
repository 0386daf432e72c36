import SimplyTyped.Proofs.Elaboration.Derivation
import SimplyTyped.Source.Typing

/-!
# Elaboration and the typing rules

Where names without a binder are rejected, a tree is elaborated exactly if the typing
rules give it a type, and the program has that type. The rules know nothing of bindings
and applied lambdas: both kinds of `let` come out as the one rule.
-/

set_option autoImplicit false

namespace SimplyTyped

namespace Tree

/-- Every declared type is known. -/
def KnownContext (context : List (Name × Ty)) : Prop :=
  ∀ declaration ∈ context, declaration.2.Known

theorem knownContext_nil : KnownContext [] :=
  fun _ member => absurd member List.not_mem_nil

theorem knownContext_cons {name : Name} {ty : Ty} {context : List (Name × Ty)}
    (known : ty.Known) (rest : KnownContext context) : KnownContext ((name, ty) :: context) :=
  List.forall_mem_cons.mpr ⟨known, rest⟩

theorem knownContext_append {left right : List (Name × Ty)} (leftKnown : KnownContext left)
    (rightKnown : KnownContext right) : KnownContext (left ++ right) := by
  intro declaration member
  rcases List.mem_append.mp member with member | member
  · exact leftKnown declaration member
  · exact rightKnown declaration member

theorem KnownContext.lookup {context : List (Name × Ty)} (known : KnownContext context)
    {name : Name} {ty : Ty} (found : context.lookup name = some ty) : ty.Known := by
  obtain ⟨before, after, rfl, -⟩ := List.lookup_eq_some_iff.mp found
  exact known (name, ty) (List.mem_append_right before List.mem_cons_self)

theorem lookup_of_mem {declarations : List (Name × Ty)} {name : Name} {ty : Ty}
    (distinct : (declarations.map Prod.fst).Nodup) (member : (name, ty) ∈ declarations) :
    declarations.lookup name = some ty := by
  induction declarations with
  | nil => exact absurd member List.not_mem_nil
  | cons head tail ih =>
      obtain ⟨new, distinct⟩ := List.nodup_cons.mp distinct
      cases member with
      | head => exact List.lookup_cons_self
      | tail _ member =>
          have different : name ≠ head.1 := fun same =>
            new (List.mem_map.mpr ⟨(name, ty), member, same⟩)
          rw [List.lookup_cons, beq_eq_false_iff_ne.mpr different]
          exact ih distinct member

/-- The rules give known types only. -/
theorem HasType.known {context : List (Name × Ty)} {tree : Tree} {ty : Ty}
    (typing : HasType context tree ty) (known : KnownContext context) : ty.Known := by
  cases typing with
  | var found => exact known.lookup found
  | int => exact Ty.known_int
  | bool => exact Ty.known_bool
  | app _ callee _ =>
      have calleeKnown := callee.known known
      exact (Ty.known_arrows.mp calleeKnown).2
  | lambda _ _ annotated body =>
      have bodyKnown := body.known (knownContext_append annotated known)
      refine Ty.known_arrows.mpr ⟨fun ty declared => ?_, bodyKnown⟩
      obtain ⟨param, member, rfl⟩ := List.mem_map.mp declared
      exact annotated param member
  | letIn value body =>
      have valueKnown := value.known known
      exact body.known (knownContext_cons valueKnown known)

theorem HaveTypes.known {context : List (Name × Ty)} {trees : List Tree} {tys : List Ty}
    (typing : HaveTypes context trees tys) (known : KnownContext context) :
    ∀ ty ∈ tys, ty.Known := by
  induction trees generalizing tys with
  | nil =>
      cases typing
      exact fun _ member => absurd member List.not_mem_nil
  | cons tree trees ih =>
      cases typing with
      | cons head tail => exact List.forall_mem_cons.mpr ⟨head.known known, ih tail⟩

end Tree

namespace Environment

/-- `environment.Declares context` says that names without a binder are rejected, and
that every other name stands for a reference of the type it has in `context`. -/
structure Declares (environment : Environment) (context : List (Name × Ty)) : Prop where
  rejects : environment.policy = .reject
  known : Tree.KnownContext context
  lookup : ∀ name, context.lookup name = (environment.resolve? name).map (·.ty)

theorem declares_empty : (empty .reject).Declares [] where
  rejects := rfl
  known := Tree.knownContext_nil
  lookup := fun _ => rfl

variable {environment : Environment} {context : List (Name × Ty)}

theorem Declares.issueAll (declares : environment.Declares context) (names : List Name) :
    (environment.issueAll names).Declares context :=
  ⟨declares.rejects, declares.known, declares.lookup⟩

theorem Declares.withParams (declares : environment.Declares context)
    {annotations : List (Name × Ty)} (distinct : (annotations.map Prod.fst).Nodup)
    (known : Tree.KnownContext annotations) :
    (environment.withParams annotations).Declares (annotations ++ context) := by
  refine ⟨declares.rejects, Tree.knownContext_append known declares.known, fun name => ?_⟩
  rw [List.lookup_append]
  by_cases member : name ∈ annotations.map Prod.fst
  · obtain ⟨ref, bound, rfl, found⟩ := @resolve?_withParams_of_mem environment _ _ member
    have annotated := annotation_of_mem_paramRefs bound
    rw [Tree.lookup_of_mem distinct annotated, found, Option.some_or, Option.map_some]
  · have absent : annotations.lookup name = none := by
      rw [List.lookup_eq_none_iff]
      intro param annotated
      have different : name ≠ param.1 := fun same =>
        member (List.mem_map.mpr ⟨param, annotated, same.symm⟩)
      exact bne_iff_ne.mpr different
    rw [absent, Option.none_or, resolve?_withParams_of_not_mem member]
    exact declares.lookup name

/-- The parameter that a `let` becomes is declared like any other. -/
theorem Declares.withParam (declares : environment.Declares context) (name : Name) {ty : Ty}
    (known : ty.Known) :
    (environment.withParams [(name, ty)]).Declares ((name, ty) :: context) := by
  have distinct : ([(name, ty)].map Prod.fst).Nodup := by simp
  have annotated : Tree.KnownContext [(name, ty)] :=
    Tree.knownContext_cons known Tree.knownContext_nil
  exact declares.withParams distinct annotated

theorem Declares.withGlobal (declares : environment.Declares context)
    (atRoot : environment.frames = []) (name : Name) {ty : Ty} (known : ty.Known) :
    (environment.withGlobal name ty).Declares ((name, ty) :: context) := by
  refine ⟨declares.rejects, Tree.knownContext_cons known declares.known, fun used => ?_⟩
  rw [resolve?_withGlobal atRoot]
  by_cases same : name = used
  · subst same
    rw [if_pos rfl, List.lookup_cons_self]
    rfl
  · rw [if_neg same, List.lookup_cons, beq_eq_false_iff_ne.mpr (Ne.symm same)]
    exact declares.lookup used

theorem Declares.lookup_eq_ok_iff (declares : environment.Declares context) {name : Name}
    {ref : Ref} : environment.lookup name = .ok ref ↔ environment.resolve? name = some ref := by
  rw [Environment.lookup_eq_ok_iff, declares.rejects]
  simp

end Environment

/-! ## Away from the root -/

mutual

theorem Elaborates.hasType {environment : Environment} {tree : Tree} {expr : Expr}
    (derived : Elaborates environment tree expr) {context : List (Name × Ty)}
    (declares : environment.Declares context) : Tree.HasType context tree expr.ty := by
  cases derived with
  | var found =>
      have resolved := declares.lookup_eq_ok_iff.mp found
      refine .var ?_
      rw [declares.lookup, resolved]
      rfl
  | int => exact .int
  | bool => exact .bool
  | app some function values typed =>
      have functionTyping := function.hasType declares
      have valuesTyping := values.haveTypes (declares.issueAll _)
      -- Nothing is deferred: the parts are typed, and so their types are known.
      have checked := Ty.applyDeferred_of_known (functionTyping.known declares.known)
        (valuesTyping.known declares.known)
      rw [checked, Ty.apply_eq_ok_iff] at typed
      rw [typed] at functionTyping
      exact .app some functionTyping valuesTyping
  | lambda accepted body =>
      obtain ⟨some, rfl, distinct, known⟩ := Param.checkAll_eq_ok_iff.mp accepted
      have bodyTyping := body.hasType (declares.withParams distinct known)
      rw [Expr.abstract, Expr.ty, Environment.paramRefs_map_ty]
      exact .lambda some distinct known bodyTyping
  | @letIn _ middle name tree _ value body ty valueDerived same bodyDerived typed =>
      subst same
      have valueTyping := valueDerived.hasType declares
      have valueKnown := valueTyping.known declares.known
      have inner := (declares.issueAll tree.binders).withParam name valueKnown
      have bodyTyping := bodyDerived.hasType inner
      have bodyKnown := bodyTyping.known inner.known
      rw [Ty.applyDeferred_domain, if_pos ⟨valueKnown, bodyKnown⟩] at typed
      cases typed
      exact .letIn valueTyping bodyTyping

theorem ElaboratesAll.haveTypes {environment : Environment} {trees : List Tree}
    {exprs : List Expr} (derived : ElaboratesAll environment trees exprs)
    {context : List (Name × Ty)} (declares : environment.Declares context) :
    Tree.HaveTypes context trees (exprs.map Expr.ty) := by
  cases derived with
  | nil => exact .nil
  | cons head tail => exact .cons (head.hasType declares) (tail.haveTypes (declares.issueAll _))

end

namespace Tree

mutual

theorem HasType.elaborates {context : List (Name × Ty)} {tree : Tree} {ty : Ty}
    (typing : HasType context tree ty) {environment : Environment}
    (declares : environment.Declares context) :
    ∃ expr, Elaborates environment tree expr ∧ expr.ty = ty := by
  cases typing with
  | var found =>
      rw [declares.lookup, Option.map_eq_some_iff] at found
      obtain ⟨ref, resolved, rfl⟩ := found
      exact ⟨.var ref, .var (declares.lookup_eq_ok_iff.mpr resolved), rfl⟩
  | int => exact ⟨_, .int, rfl⟩
  | bool => exact ⟨_, .bool, rfl⟩
  | app some callee arguments =>
      have calleeKnown := callee.known declares.known
      have argumentsKnown := arguments.known declares.known
      obtain ⟨function, functionDerived, functionTy⟩ := callee.elaborates declares
      obtain ⟨values, valuesDerived, valueTys⟩ := arguments.elaborateAll (declares.issueAll _)
      refine ⟨_, .app some functionDerived valuesDerived ?_, rfl⟩
      rw [functionTy, valueTys, Ty.applyDeferred_of_known calleeKnown argumentsKnown]
      exact Ty.apply_eq_ok_iff.mpr rfl
  | @lambda _ annotations _ _ some distinct known body =>
      have accepted := Param.checkAll_eq_ok_iff.mpr ⟨some, rfl, distinct, known⟩
      obtain ⟨body, bodyDerived, rfl⟩ := body.elaborates (declares.withParams distinct known)
      refine ⟨_, .lambda accepted bodyDerived, ?_⟩
      rw [Expr.abstract, Expr.ty, Environment.paramRefs_map_ty]
  | @letIn _ name tree _ _ _ valueTyping bodyTyping =>
      have valueKnown := valueTyping.known declares.known
      have bodyKnown := bodyTyping.known (knownContext_cons valueKnown declares.known)
      obtain ⟨value, valueDerived, rfl⟩ := valueTyping.elaborates declares
      have inner := (declares.issueAll tree.binders).withParam name valueKnown
      obtain ⟨body, bodyDerived, rfl⟩ := bodyTyping.elaborates inner
      refine ⟨.app body.ty _ _, .letIn valueDerived rfl bodyDerived ?_, rfl⟩
      rw [Ty.applyDeferred_domain, if_pos ⟨valueKnown, bodyKnown⟩]

theorem HaveTypes.elaborateAll {context : List (Name × Ty)} {trees : List Tree} {tys : List Ty}
    (typing : HaveTypes context trees tys) {environment : Environment}
    (declares : environment.Declares context) :
    ∃ exprs, ElaboratesAll environment trees exprs ∧ exprs.map Expr.ty = tys := by
  cases typing with
  | nil => exact ⟨[], .nil, rfl⟩
  | cons head tail =>
      obtain ⟨expr, headDerived, rfl⟩ := head.elaborates declares
      obtain ⟨exprs, tailDerived, rfl⟩ := tail.elaborateAll (declares.issueAll _)
      exact ⟨expr :: exprs, .cons headDerived tailDerived, rfl⟩

end

end Tree

/-! ## At the root -/

theorem ElaboratesProgram.hasType {environment : Environment} {tree : Tree} {program : Program}
    (derived : ElaboratesProgram environment tree program) {context : List (Name × Ty)}
    (declares : environment.Declares context) (atRoot : environment.frames = []) :
    Tree.HasType context tree program.ty := by
  induction derived generalizing context with
  | entry _ entry => exact entry.hasType declares
  | @letIn _ middle name tree _ value _ _ valueDerived same _ ih =>
      subst same
      have valueTyping := valueDerived.hasType declares
      have valueKnown := valueTyping.known declares.known
      have later := (declares.issueAll tree.binders).withGlobal atRoot name valueKnown
      exact .letIn valueTyping (ih later atRoot)

namespace Tree

theorem HasType.elaboratesProgram {context : List (Name × Ty)} {tree : Tree} {ty : Ty}
    (typing : HasType context tree ty) {environment : Environment}
    (declares : environment.Declares context) (atRoot : environment.frames = []) :
    ∃ program, ElaboratesProgram environment tree program ∧ program.ty = ty := by
  induction tree using root_induction generalizing environment context with
  | entry tree single =>
      obtain ⟨entry, derived, same⟩ := typing.elaborates declares
      exact ⟨⟨[], entry⟩, .entry single derived, same⟩
  | letIn name tree body bodyIH =>
      cases typing with
      | letIn valueTyping bodyTyping =>
          have valueKnown := valueTyping.known declares.known
          obtain ⟨value, valueDerived, rfl⟩ := valueTyping.elaborates declares
          have later := (declares.issueAll tree.binders).withGlobal atRoot name valueKnown
          obtain ⟨program, derived, same⟩ := bodyIH bodyTyping later atRoot
          exact ⟨_, .letIn valueDerived rfl derived, same⟩

/-- Elaboration decides typing: it accepts a tree exactly if the tree has a type where
nothing is declared, and the program has the type of its tree. -/
theorem toProgram_reject_iff_hasType {tree : Tree} {ty : Ty} :
    (∃ program, tree.toProgram .reject = .ok program ∧ program.ty = ty) ↔ HasType [] tree ty := by
  constructor
  · intro accepted
    obtain ⟨program, elaborated, rfl⟩ := accepted
    have derived := toProgram_eq_ok_iff.mp elaborated
    exact derived.hasType Environment.declares_empty rfl
  · intro typing
    obtain ⟨program, derived, same⟩ := typing.elaboratesProgram Environment.declares_empty rfl
    exact ⟨program, toProgram_eq_ok_iff.mpr derived, same⟩

end Tree

end SimplyTyped
