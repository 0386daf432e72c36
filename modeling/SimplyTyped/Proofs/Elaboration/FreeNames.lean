import SimplyTyped.Proofs.Core.FreeRefs
import SimplyTyped.Proofs.Elaboration.Derivation

/-!
# Free references of elaborated programs

Scope on source trees goes by names, and scope in core programs by whole references.
They agree: each use becomes the reference that its name stands for, and that reference
is bound in the program exactly where the name is bound in the tree.
-/

set_option autoImplicit false

namespace SimplyTyped

namespace Environment

/-- What a name becomes where a name without a binder is kept. -/
def refOf (environment : Environment) (name : Name) : Ref :=
  (environment.resolve? name).getD (.unresolved name)

theorem refOf_of_lookup {environment : Environment} {name : Name} {ref : Ref}
    (found : environment.lookup name = .ok ref) : environment.refOf name = ref := by
  rcases lookup_eq_ok_iff.mp found with resolved | ⟨unresolved, -, rfl⟩
  · rw [refOf, resolved, Option.getD_some]
  · rw [refOf, unresolved, Option.getD_none]

theorem name_refOf (environment : Environment) (name : Name) :
    (environment.refOf name).name = name := by
  unfold refOf
  cases resolved : environment.resolve? name with
  | some ref => exact (resolve?_eq_some resolved).2
  | none => rfl

theorem refOf_withParams_of_not_mem {environment : Environment}
    {annotations : List (Name × Ty)} {name : Name} (absent : name ∉ annotations.map Prod.fst) :
    (environment.withParams annotations).refOf name = environment.refOf name := by
  rw [refOf, resolve?_withParams_of_not_mem absent, refOf]

/-- A name becomes a parameter exactly where it is the name of one. -/
theorem refOf_withParams_mem_iff {environment : Environment} {annotations : List (Name × Ty)}
    {name : Name} :
    (environment.withParams annotations).refOf name ∈ environment.paramRefs annotations ↔
      name ∈ annotations.map Prod.fst := by
  constructor
  · intro member
    have annotated := annotation_of_mem_paramRefs member
    rw [name_refOf] at annotated
    exact List.mem_map_of_mem annotated
  · intro bound
    obtain ⟨ref, member, -, resolved⟩ := resolve?_withParams_of_mem bound
    rw [refOf, resolved, Option.getD_some]
    exact member

theorem refOf_withGlobal {environment : Environment} (atRoot : environment.frames = [])
    (bound : Name) (ty : Ty) (name : Name) :
    (environment.withGlobal bound ty).refOf name =
      if bound = name then environment.globalRef bound ty else environment.refOf name := by
  rw [refOf, resolve?_withGlobal atRoot]
  split <;> rfl

theorem refOf_withGlobal_eq_iff {environment : Environment} (atRoot : environment.frames = [])
    {bound : Name} {ty : Ty} {name : Name} :
    (environment.withGlobal bound ty).refOf name = environment.globalRef bound ty ↔
      name = bound := by
  constructor
  · intro same
    rw [← name_refOf (environment.withGlobal bound ty) name, same]
    rfl
  · rintro rfl
    rw [refOf_withGlobal atRoot, if_pos rfl]

end Environment

/-- Taking away the uses of what is bound is taking away its names: `inner` tells what
names become inside, and `outer` what they become outside. -/
theorem mem_map_and_not_iff {names : List Name} {inner outer : Name → Ref} {bound : Ref → Prop}
    {binds : Name → Prop} [DecidablePred binds] (same : ∀ name, bound (inner name) ↔ binds name)
    (passes : ∀ name, ¬ binds name → inner name = outer name) {ref : Ref} :
    ref ∈ names.map inner ∧ ¬ bound ref ↔
      ref ∈ (names.filter fun name => ¬ binds name).map outer := by
  constructor
  · intro used
    obtain ⟨member, free⟩ := used
    obtain ⟨name, used, rfl⟩ := List.mem_map.mp member
    have unbound : ¬ binds name := fun binds => free ((same name).mpr binds)
    rw [passes name unbound]
    exact List.mem_map_of_mem (List.mem_filter.mpr ⟨used, by simpa using unbound⟩)
  · intro member
    obtain ⟨name, kept, rfl⟩ := List.mem_map.mp member
    obtain ⟨used, unbound⟩ := List.mem_filter.mp kept
    have unbound : ¬ binds name := by simpa using unbound
    rw [← passes name unbound, same]
    exact ⟨List.mem_map_of_mem used, unbound⟩

theorem mem_freeUses_abstract_iff {environment : Environment} {annotations : List (Name × Ty)}
    {body : Expr} {names : List Name}
    (uses : ∀ {ref}, ref ∈ body.freeUses ↔
      ref ∈ names.map (environment.withParams annotations).refOf) {ref : Ref} :
    ref ∈ (Expr.abstract (environment.paramRefs annotations) body).freeUses ↔
      ref ∈ (names.filter (· ∉ annotations.map Prod.fst)).map environment.refOf := by
  rw [Expr.abstract, Expr.freeUses, List.mem_filter, decide_eq_true_eq, uses]
  exact mem_map_and_not_iff (fun _ => Environment.refOf_withParams_mem_iff)
    fun _ => Environment.refOf_withParams_of_not_mem

mutual

theorem Elaborates.mem_freeUses_iff {environment : Environment} {tree : Tree} {expr : Expr}
    (derived : Elaborates environment tree expr) {ref : Ref} :
    ref ∈ expr.freeUses ↔ ref ∈ tree.freeNames.map environment.refOf := by
  cases derived with
  | var found => simp [Expr.freeUses, Tree.freeNames, Environment.refOf_of_lookup found]
  | int => simp [Expr.freeUses, Tree.freeNames]
  | bool => simp [Expr.freeUses, Tree.freeNames]
  | app _ function values _ =>
      rw [Expr.freeUses, Tree.freeNames, List.mem_append, List.map_append, List.mem_append,
        function.mem_freeUses_iff, values.mem_freeUses_iff]
      rfl
  | lambda accepted body =>
      rw [mem_freeUses_abstract_iff body.mem_freeUses_iff, Tree.freeNames,
        Param.checkAll_map_name accepted]
  | @letIn _ middle name _ rest value body _ valueDerived same bodyDerived _ =>
      subst same
      have bodyUses := @mem_freeUses_abstract_iff _ [(name, value.ty)] body rest.freeNames
        bodyDerived.mem_freeUses_iff ref
      have valueUses : Expr.freeUsesAll [value] = value.freeUses := by simp [Expr.freeUsesAll]
      have named : rest.freeNames.filter (· ∉ [(name, value.ty)].map Prod.fst) =
          rest.freeNames.filter (· ≠ name) := by simp
      rw [named] at bodyUses
      rw [Expr.freeUses, valueUses, Tree.freeNames, List.mem_append, List.map_append,
        List.mem_append, or_comm, valueDerived.mem_freeUses_iff]
      exact or_congr_right bodyUses

theorem ElaboratesAll.mem_freeUses_iff {environment : Environment} {trees : List Tree}
    {exprs : List Expr} (derived : ElaboratesAll environment trees exprs) {ref : Ref} :
    ref ∈ Expr.freeUsesAll exprs ↔ ref ∈ (Tree.freeNamesAll trees).map environment.refOf := by
  cases derived with
  | nil => simp [Expr.freeUsesAll, Tree.freeNamesAll]
  | cons head tail =>
      rw [Expr.freeUsesAll, Tree.freeNamesAll, List.mem_append, List.map_append, List.mem_append,
        head.mem_freeUses_iff, tail.mem_freeUses_iff]
      rfl

end

theorem mem_map_refOf_withGlobal_iff (environment : Environment)
    (atRoot : environment.frames = []) {bound : Name} {ty : Ty} {names : List Name} {ref : Ref} :
    ref ∈ names.map (environment.withGlobal bound ty).refOf ∧
        ¬ ref = environment.globalRef bound ty ↔
      ref ∈ (names.filter fun name => ¬ name = bound).map environment.refOf := by
  have passes : ∀ name, ¬ name = bound →
      (environment.withGlobal bound ty).refOf name = environment.refOf name := by
    intro name different
    rw [Environment.refOf_withGlobal atRoot, if_neg (Ne.symm different)]
  exact @mem_map_and_not_iff names _ _ (· = environment.globalRef bound ty) (· = bound) _
    (fun _ => Environment.refOf_withGlobal_eq_iff atRoot) passes ref

theorem ElaboratesProgram.mem_freeUses_iff {environment : Environment} {tree : Tree}
    {program : Program} (derived : ElaboratesProgram environment tree program)
    (atRoot : environment.frames = []) {ref : Ref} :
    ref ∈ program.freeUses ↔ ref ∈ tree.freeNames.map environment.refOf := by
  induction derived with
  | entry _ entry => exact entry.mem_freeUses_iff
  | @letIn environment middle name _ rest value bindings entry valueDerived same _ ih =>
      subst same
      have rest := ih atRoot
      rw [Program.freeUses] at rest
      rw [Program.freeUses, freeUsesFrom, Tree.freeNames, List.mem_append, List.map_append,
        List.mem_append, valueDerived.mem_freeUses_iff, List.mem_filter, decide_eq_true_eq, rest]
      exact or_congr_right (mem_map_refOf_withGlobal_iff (environment.issueAll _) atRoot)

/-- The free references of an elaborated program are the free names of its tree, each of
them unresolved: of unknown type, and with the index that no binder of it was given. -/
theorem freeRefs_of_toProgram {tree : Tree} {policy : Policy} {program : Program}
    (elaborated : tree.toProgram policy = .ok program) :
    ∃ free, program.freeRefs = .ok free ∧
      ∀ ref, ref ∈ free ↔ ∃ name ∈ tree.freeNames, ref = ⟨name, 0, .unknown, .unresolved⟩ := by
  refine ⟨_, program.freeRefs_eq, fun ref => ?_⟩
  have derived := Tree.toProgram_eq_ok_iff.mp elaborated
  rw [SortedSet.mem_ofList, derived.mem_freeUses_iff rfl, List.mem_map]
  constructor
  · intro reported
    obtain ⟨name, used, rfl⟩ := reported
    exact ⟨name, used, rfl⟩
  · intro reported
    obtain ⟨name, used, rfl⟩ := reported
    exact ⟨name, used, rfl⟩

/-- A name that is bound later, or in another branch, is still free where it is not. -/
theorem freeRefs_of_toProgram_shadowed :
    ∃ program,
      (Tree.letIn ⟨"x"⟩ (.var ⟨"y"⟩) (.letIn ⟨"y"⟩ (.var ⟨"x"⟩)
        (.app (.lambda [⟨⟨"x"⟩, some .int⟩, ⟨⟨"f"⟩, some .bool⟩]
            (.letIn ⟨"z"⟩ (.app (.var ⟨"z"⟩) [.var ⟨"f"⟩]) (.app (.var ⟨"z"⟩) [.var ⟨"x"⟩])))
          [.var ⟨"f"⟩, .var ⟨"y"⟩]))).toProgram .keep = .ok program ∧
      ∃ free, program.freeRefs = .ok free ∧
        ∀ ref, ref ∈ free ↔
          ∃ name ∈ [⟨"y"⟩, ⟨"z"⟩, ⟨"f"⟩], ref = ⟨name, 0, .unknown, .unresolved⟩ := by
  refine ⟨?program, ?elaborated, freeRefs_of_toProgram ?elaborated⟩
  case elaborated => rfl

end SimplyTyped
