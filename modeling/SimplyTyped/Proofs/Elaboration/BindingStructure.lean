import SimplyTyped.Elaboration.Declarations
import SimplyTyped.Nameless
import SimplyTyped.Proofs.Elaboration.Derivation

/-!
# Binding structure of elaborated programs

Elaboration loses, repeats and reorders nothing, and no reference is captured by a
binder that it does not belong to: the tree and its program have the same nameless
form. Indices play no part in this. A reference is found where its name is, because
both are looked for from the inside, and nothing further in has the name.
-/

set_option autoImplicit false

namespace SimplyTyped

namespace Nameless

variable {refs : List Ref} {name : Name} {ref : Ref}

theorem idxOf_map_name (member : ref ∈ refs) (distinct : (refs.map (·.name)).Nodup) :
    (refs.map (·.name)).idxOf ref.name = refs.idxOf ref := by
  induction refs with
  | nil => exact absurd member List.not_mem_nil
  | cons head tail ih =>
      obtain ⟨new, distinct⟩ := List.nodup_cons.mp distinct
      rcases List.mem_cons.mp member with rfl | member
      · simp
      · have different : head.name ≠ ref.name := fun same =>
          new (List.mem_map.mpr ⟨ref, member, same.symm⟩)
        have differs : head ≠ ref := fun same => different (congrArg Ref.name same)
        rw [List.map_cons, List.idxOf_cons, List.idxOf_cons, ih member distinct,
          beq_eq_false_iff_ne.mpr different, beq_eq_false_iff_ne.mpr differs]

/-- The first reference of a name stands where the name stands first. -/
theorem idxOf_of_find? (found : refs.find? (·.name = name) = some ref) :
    (refs.map (·.name)).idxOf name = refs.idxOf ref := by
  induction refs with
  | nil => cases found
  | cons head tail ih =>
      by_cases named : head.name = name
      · simp only [List.find?_cons, named, decide_true, Option.some.injEq] at found
        subst found
        simp [named]
      · simp only [List.find?_cons, named, decide_false] at found
        have differs : head ≠ ref := by
          rintro rfl
          exact named (by simpa using List.find?_some found)
        rw [List.map_cons, List.idxOf_cons, List.idxOf_cons, ih found,
          beq_eq_false_iff_ne.mpr named, beq_eq_false_iff_ne.mpr differs]

variable {frames : List (List Ref)}

/-- The names of parameters, lambda by lambda. -/
def names (params : List (List Ref)) : List (List Name) :=
  params.map fun refs => refs.map (·.name)

/-- A name that is not in sight is at no position, and neither is a reference of it. -/
theorem findParam?_of_find?_eq_none (missed : frames.flatten.find? (·.name = name) = none) :
    findParam? name (names (frames.map List.reverse)) = none ∧
      (ref.name = name → findParam? ref (frames.map List.reverse) = none) := by
  induction frames with
  | nil => exact ⟨rfl, fun _ => rfl⟩
  | cons frame frames ih =>
      rw [List.flatten_cons, List.find?_append, Option.or_eq_none_iff] at missed
      obtain ⟨missed, rest⟩ := missed
      obtain ⟨nameRest, refRest⟩ := ih rest
      have absent : ∀ other ∈ frame, other.name ≠ name := by simpa using missed
      constructor
      · have missing : name ∉ frame.reverse.map (·.name) := by simpa using absent
        simp only [names, List.map_cons, findParam?] at nameRest ⊢
        rw [if_neg missing, nameRest, Option.map_none]
      · intro named
        have missing : ref ∉ frame.reverse := fun member =>
          absent ref (List.mem_reverse.mp member) named
        rw [List.map_cons, findParam?, if_neg missing, refRest named, Option.map_none]

/-- A reference is at the position at which its name is found. -/
theorem findParam?_of_find?_eq_some
    (distinct : ∀ frame ∈ frames, (frame.reverse.map (·.name)).Nodup)
    (found : frames.flatten.find? (·.name = name) = some ref) :
    ∃ place, findParam? name (names (frames.map List.reverse)) = some place ∧
      findParam? ref (frames.map List.reverse) = some place := by
  induction frames with
  | nil => cases found
  | cons frame frames ih =>
      rw [List.flatten_cons, List.find?_append] at found
      have here : (frame.reverse.map (·.name)).Nodup := distinct frame List.mem_cons_self
      cases first : frame.find? (·.name = name) with
      | some other =>
          rw [first, Option.some_or, Option.some.injEq] at found
          subst found
          have member : other ∈ frame.reverse :=
            List.mem_reverse.mpr (List.mem_of_find?_eq_some first)
          have named : other.name = name := by simpa using List.find?_some first
          have nameMember : name ∈ frame.reverse.map (·.name) :=
            List.mem_map.mpr ⟨other, member, named⟩
          refine ⟨(0, frame.reverse.idxOf other), ?_, ?_⟩
          · simp only [names, List.map_cons, findParam?]
            rw [if_pos nameMember, ← idxOf_map_name member here, named]
          · rw [List.map_cons, findParam?, if_pos member]
      | none =>
          rw [first, Option.none_or] at found
          obtain ⟨place, nameFound, refFound⟩ := ih
            (fun frame member => distinct frame (List.mem_cons_of_mem _ member)) found
          have named : ref.name = name := by simpa using List.find?_some found
          have absent : ∀ other ∈ frame, other.name ≠ name := by simpa using first
          have nameMissing : name ∉ frame.reverse.map (·.name) := by simpa using absent
          have refMissing : ref ∉ frame.reverse := fun member =>
            absent ref (List.mem_reverse.mp member) named
          refine ⟨(place.1 + 1, place.2), ?_, ?_⟩
          · simp only [names, List.map_cons, findParam?] at nameFound ⊢
            rw [if_neg nameMissing, nameFound, Option.map_some]
          · rw [List.map_cons, findParam?, if_neg refMissing, refFound, Option.map_some]

end Nameless

namespace Environment

/-- The parameters in scope, innermost lambda first, in the order of their lambda. -/
def params (environment : Environment) : List (List Ref) :=
  environment.frames.map List.reverse

/-- No two parameters of one lambda share a name, and what is in sight is bound. -/
structure Tidy (environment : Environment) : Prop where
  distinct : ∀ frame ∈ environment.frames, (frame.reverse.map (·.name)).Nodup
  resolved : ∀ ref ∈ environment.visible, ¬ ref.IsUnresolved

theorem tidy_empty (policy : Policy) : (empty policy).Tidy :=
  ⟨fun _ member => absurd member List.not_mem_nil, fun _ member => absurd member List.not_mem_nil⟩

variable {environment : Environment}

theorem Tidy.issueAll (tidy : environment.Tidy) (names : List Name) :
    (environment.issueAll names).Tidy :=
  ⟨tidy.distinct, tidy.resolved⟩

theorem Tidy.withParams (tidy : environment.Tidy) {annotations : List (Name × Ty)}
    (distinct : (annotations.map Prod.fst).Nodup) : (environment.withParams annotations).Tidy := by
  constructor
  · intro frame member
    rcases List.mem_cons.mp member with rfl | member
    · rwa [List.reverse_reverse, paramRefs_map_name]
    · exact tidy.distinct frame member
  · intro ref member unresolved
    rw [visible_withParams, List.mem_append, List.mem_reverse] at member
    rcases member with member | member
    · exact absurd ((scope_of_mem_paramRefs member).symm.trans unresolved) nofun
    · exact tidy.resolved ref member unresolved

theorem Tidy.withGlobal (tidy : environment.Tidy) (name : Name) (ty : Ty) :
    (environment.withGlobal name ty).Tidy := by
  refine ⟨tidy.distinct, fun ref member unresolved => ?_⟩
  rcases (mem_visible_withGlobal ..).mp member with rfl | member
  · cases unresolved
  · exact tidy.resolved ref member unresolved

@[simp] theorem params_withParams (annotations : List (Name × Ty)) :
    (environment.withParams annotations).params =
      environment.paramRefs annotations :: environment.params := by
  simp [params]

theorem pointer?_of_resolve?_eq_none {name : Name} (missed : environment.resolve? name = none) :
    Nameless.pointer? (Nameless.names environment.params) (environment.globals.map (·.name)) name =
      none := by
  rw [resolve?, visible, List.find?_append, Option.or_eq_none_iff] at missed
  have absent : name ∉ environment.globals.map (·.name) := by simpa using missed.2
  have nameMissed := (@Nameless.findParam?_of_find?_eq_none _ (.unresolved name) _ missed.1).1
  rw [Nameless.pointer?, params, nameMissed]
  simp only
  rw [if_neg absent]

theorem Tidy.pointer?_of_resolve?_eq_some (tidy : environment.Tidy) {name : Name} {ref : Ref}
    (found : environment.resolve? name = some ref) :
    ∃ pointer,
      Nameless.pointer? (Nameless.names environment.params) (environment.globals.map (·.name))
        name = some pointer ∧
      Nameless.pointer? environment.params environment.globals ref = some pointer := by
  have named := (resolve?_eq_some found).2
  rw [resolve?, visible, List.find?_append] at found
  cases first : environment.frames.flatten.find? (·.name = name) with
  | some other =>
      rw [first, Option.some_or, Option.some.injEq] at found
      subst found
      obtain ⟨place, namePlace, refPlace⟩ :=
        Nameless.findParam?_of_find?_eq_some tidy.distinct first
      refine ⟨.param place.1 place.2, ?_, ?_⟩
      · rw [Nameless.pointer?, params, namePlace]
      · rw [Nameless.pointer?, params, refPlace]
  | none =>
      rw [first, Option.none_or] at found
      obtain ⟨nameMissed, refMissed⟩ := @Nameless.findParam?_of_find?_eq_none _ ref _ first
      have member := List.mem_of_find?_eq_some found
      have nameMember : name ∈ environment.globals.map (·.name) :=
        List.mem_map.mpr ⟨ref, member, named⟩
      refine ⟨.global (environment.globals.idxOf ref), ?_, ?_⟩
      · rw [Nameless.pointer?, params, nameMissed]
        simp only
        rw [if_pos nameMember, Nameless.idxOf_of_find? found]
      · rw [Nameless.pointer?, params, refMissed named]
        simp only
        rw [if_pos member]

/-- A use points where its name points: to the same binder, or nowhere. -/
theorem Tidy.nameless_var (tidy : environment.Tidy) {name : Name} {ref : Ref}
    (found : environment.lookup name = .ok ref) :
    (Expr.var ref).nameless environment.params environment.globals =
      (Tree.var name).nameless (Nameless.names environment.params)
        (environment.globals.map (·.name)) := by
  rw [Expr.nameless, Tree.nameless]
  rcases lookup_eq_ok_iff.mp found with resolved | ⟨missed, -, rfl⟩
  · obtain ⟨pointer, namePointer, refPointer⟩ := tidy.pointer?_of_resolve?_eq_some resolved
    rw [if_neg (tidy.resolved ref (resolve?_eq_some resolved).1), namePointer, refPointer,
      Option.getD_some, Option.getD_some]
  · rw [pointer?_of_resolve?_eq_none missed, Option.getD_none]
    exact if_pos rfl

theorem nameless_abstract (environment : Environment) {annotations : List (Name × Ty)}
    {tree : Tree} {body : Expr}
    (inner : body.nameless (environment.withParams annotations).params
        (environment.withParams annotations).globals =
      tree.nameless (Nameless.names (environment.withParams annotations).params)
        ((environment.withParams annotations).globals.map (·.name))) :
    (Expr.abstract (environment.paramRefs annotations) body).nameless environment.params
        environment.globals =
      .lambda (annotations.map Prod.fst)
        (tree.nameless (annotations.map Prod.fst :: Nameless.names environment.params)
          (environment.globals.map (·.name))) := by
  rw [params_withParams, globals_withParams] at inner
  rw [Expr.abstract, Expr.nameless, inner, Nameless.names, List.map_cons, paramRefs_map_name]
  rfl

end Environment

mutual

theorem Elaborates.nameless_eq {environment : Environment} {tree : Tree} {expr : Expr}
    (derived : Elaborates environment tree expr) (tidy : environment.Tidy) :
    expr.nameless environment.params environment.globals =
      tree.nameless (Nameless.names environment.params) (environment.globals.map (·.name)) := by
  cases derived with
  | var found => exact tidy.nameless_var found
  | int => rw [Expr.nameless, Tree.nameless]
  | bool => rw [Expr.nameless, Tree.nameless]
  | app _ function values _ =>
      rw [Expr.nameless, Tree.nameless, function.nameless_eq tidy]
      exact congrArg (Nameless.app _) (values.nameless_eq (tidy.issueAll _))
  | lambda accepted body =>
      obtain ⟨-, -, distinct, -⟩ := Param.checkAll_eq_ok_iff.mp accepted
      rw [Tree.nameless, Param.checkAll_map_name accepted]
      exact environment.nameless_abstract (body.nameless_eq (tidy.withParams distinct))
  | @letIn _ middle name _ _ value body _ valueDerived same bodyDerived _ =>
      subst same
      have distinct : ([(name, value.ty)].map Prod.fst).Nodup := by simp
      have function := Environment.nameless_abstract _
        (bodyDerived.nameless_eq ((tidy.issueAll _).withParams distinct))
      rw [Expr.nameless, Expr.namelessAll, Expr.namelessAll, Tree.nameless,
        valueDerived.nameless_eq tidy]
      exact congrArg (Nameless.app · _) function

theorem ElaboratesAll.nameless_eq {environment : Environment} {trees : List Tree}
    {exprs : List Expr} (derived : ElaboratesAll environment trees exprs)
    (tidy : environment.Tidy) :
    Expr.namelessAll environment.params environment.globals exprs =
      Tree.namelessAll (Nameless.names environment.params) (environment.globals.map (·.name))
        trees := by
  cases derived with
  | nil => rw [Expr.namelessAll, Tree.namelessAll]
  | cons head tail =>
      rw [Expr.namelessAll, Tree.namelessAll, head.nameless_eq tidy]
      exact congrArg (List.cons _) (tail.nameless_eq (tidy.issueAll _))

end

/-- At the root, no parameter is in scope. -/
theorem Elaborates.nameless_at_root {environment : Environment} {tree : Tree} {expr : Expr}
    (derived : Elaborates environment tree expr) (tidy : environment.Tidy)
    (atRoot : environment.frames = []) :
    expr.nameless [] environment.globals =
      tree.nameless [] (environment.globals.map (·.name)) := by
  have same := derived.nameless_eq tidy
  rw [Environment.params, atRoot] at same
  exact same

theorem Tree.namelessProgram_of_splitLets {tree : Tree} (single : tree.splitLets = ([], tree))
    (globals : List Name) : tree.namelessProgram globals = ⟨[], tree.nameless [] globals⟩ := by
  cases tree with
  | letIn => cases single
  | _ => rfl

theorem ElaboratesProgram.nameless_eq {environment : Environment} {tree : Tree}
    {program : Program} (derived : ElaboratesProgram environment tree program)
    (tidy : environment.Tidy) (atRoot : environment.frames = []) :
    namelessFrom environment.globals program.entry program.bindings =
      tree.namelessProgram (environment.globals.map (·.name)) := by
  induction derived with
  | @entry environment tree expr single entry =>
      have same := entry.nameless_at_root tidy atRoot
      rw [Tree.namelessProgram_of_splitLets single, namelessFrom, same]
  | @letIn environment middle name tree rest value bindings entry valueDerived same _ ih =>
      subst same
      have valueSame := valueDerived.nameless_at_root tidy atRoot
      have restSame : namelessFrom
          ((environment.issueAll tree.binders).globalRef name value.ty :: environment.globals)
            entry bindings = rest.namelessProgram (name :: environment.globals.map (·.name)) :=
        ih ((tidy.issueAll _).withGlobal name value.ty) atRoot
      simp only [namelessFrom, Tree.namelessProgram, valueSame, restSame]
      rfl

/-! ## Annotations -/

mutual

theorem Elaborates.keepsAnnotations {environment : Environment} {tree : Tree} {expr : Expr}
    (derived : Elaborates environment tree expr) : KeepsAnnotations tree expr := by
  cases derived with
  | var => exact .var
  | int => exact .int
  | bool => exact .bool
  | app _ function values _ => exact .app function.keepsAnnotations values.keepAnnotations
  | @lambda _ _ annotations _ _ accepted body =>
      obtain ⟨-, rfl, -⟩ := Param.checkAll_eq_ok_iff.mp accepted
      refine .lambda ?_ body.keepsAnnotations
      have tys := congrArg (List.map some) (environment.paramRefs_map_ty annotations)
      simpa only [List.map_map, Function.comp_def] using tys.symm
  | letIn value same body _ =>
      exact .letIn rfl value.keepsAnnotations body.keepsAnnotations

theorem ElaboratesAll.keepAnnotations {environment : Environment} {trees : List Tree}
    {exprs : List Expr} (derived : ElaboratesAll environment trees exprs) :
    AllKeepAnnotations trees exprs := by
  cases derived with
  | nil => exact .nil
  | cons head tail => exact .cons head.keepsAnnotations tail.keepAnnotations

end

theorem ElaboratesProgram.keepsAnnotations {environment : Environment} {tree : Tree}
    {program : Program} (derived : ElaboratesProgram environment tree program) :
    AllKeepAnnotations (tree.splitLets.1.map Prod.snd) (program.bindings.map (·.value)) ∧
      KeepsAnnotations tree.splitLets.2 program.entry := by
  induction derived with
  | entry single entry =>
      rw [single]
      exact ⟨.nil, entry.keepsAnnotations⟩
  | letIn value _ _ ih => exact ⟨.cons value.keepsAnnotations ih.1, ih.2⟩

/-- A tree and its program have the same binding structure, and parameters keep the types
they are annotated with. -/
theorem nameless_of_toProgram {tree : Tree} {policy : Policy} {program : Program}
    (elaborated : tree.toProgram policy = .ok program) :
    program.nameless = tree.namelessProgram [] ∧
      AllKeepAnnotations (tree.splitLets.1.map Prod.snd) (program.bindings.map (·.value)) ∧
      KeepsAnnotations tree.splitLets.2 program.entry := by
  have derived := Tree.toProgram_eq_ok_iff.mp elaborated
  exact ⟨derived.nameless_eq (Environment.tidy_empty policy) rfl, derived.keepsAnnotations⟩

/-- The name of a `let` away from the root hides a global in the body and not in the
value, and is hidden itself by a parameter next to it. -/
theorem nameless_of_toProgram_shadowed :
    ∃ program,
      (Tree.letIn ⟨"x"⟩ (.lambda [⟨⟨"x"⟩, some .int⟩] (.var ⟨"x"⟩))
        (.app (.var ⟨"x"⟩) [.letIn ⟨"x"⟩ (.app (.var ⟨"x"⟩) [.int 1])
          (.app (.lambda [⟨⟨"y"⟩, some .int⟩, ⟨⟨"x"⟩, some .bool⟩]
            (.app (.var ⟨"f"⟩) [.var ⟨"x"⟩, .var ⟨"y"⟩])) [.var ⟨"x"⟩, .bool true])])).toProgram
          .keep = .ok program ∧
      program.nameless =
        ⟨[(⟨"x"⟩, .lambda [⟨"x"⟩] (.param 0 0))],
          .app (.global 0) [.app (.lambda [⟨"x"⟩]
            (.app (.lambda [⟨"y"⟩, ⟨"x"⟩] (.app (.free ⟨"f"⟩) [.param 0 1, .param 0 0]))
              [.param 0 0, .bool true])) [.app (.global 0) [.int 1]]]⟩ := by
  refine ⟨?program, ?elaborated, (nameless_of_toProgram ?elaborated).1⟩
  case elaborated => rfl

end SimplyTyped
