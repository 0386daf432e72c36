import SimplyTyped.Elaboration.Environment
import SimplyTyped.Pass.Lemmas

/-!
# What binding does to an environment

The steps that bind make `withParams` and `withGlobal` of an environment, and the names
that these bring into sight are found before any other.
-/

set_option autoImplicit false

namespace SimplyTyped.Environment

section issueAll

variable (environment : Environment) (names : List Name)

@[simp] theorem issueAll_nil : environment.issueAll [] = environment := rfl

@[simp] theorem issueAll_issueAll (more : List Name) :
    (environment.issueAll names).issueAll more = environment.issueAll (names ++ more) := by
  simp [issueAll]

@[simp] theorem policy_issueAll :
    (environment.issueAll names).policy = environment.policy := rfl

@[simp] theorem frames_issueAll :
    (environment.issueAll names).frames = environment.frames := rfl

@[simp] theorem globals_issueAll :
    (environment.issueAll names).globals = environment.globals := rfl

@[simp] theorem visible_issueAll :
    (environment.issueAll names).visible = environment.visible := rfl

@[simp] theorem resolve?_issueAll (name : Name) :
    (environment.issueAll names).resolve? name = environment.resolve? name := rfl

end issueAll

section withParams

variable (environment : Environment) (annotations : List (Name × Ty))

@[simp] theorem policy_withParams :
    (environment.withParams annotations).policy = environment.policy := rfl

@[simp] theorem frames_withParams :
    (environment.withParams annotations).frames =
      (environment.paramRefs annotations).reverse :: environment.frames := rfl

@[simp] theorem globals_withParams :
    (environment.withParams annotations).globals = environment.globals := rfl

@[simp] theorem visible_withParams :
    (environment.withParams annotations).visible =
      (environment.paramRefs annotations).reverse ++ environment.visible := by
  simp [visible]

/-- Outside the body, the parameters are out of sight and their indices still in use. -/
@[simp] theorem leave_withParams_issueAll (names : List Name) :
    ((environment.withParams annotations).issueAll names).leave =
      environment.issueAll (annotations.map Prod.fst ++ names) := by
  simp [leave, withParams, issueAll]

/-- What is in sight plays no part in the references that parameters get. -/
theorem paramRefs_congr {left right : Environment} (same : left.issued = right.issued) :
    left.paramRefs annotations = right.paramRefs annotations := by
  induction annotations generalizing left right with
  | nil => rfl
  | cons head annotations ih =>
      have issued : (left.issue head.1).issued = (right.issue head.1).issued :=
        congrArg (head.1 :: ·) same
      simp only [paramRefs, ih issued, paramRef, nextIndex, same]

theorem paramRefs_map :
    (environment.paramRefs annotations).map (fun ref => (ref.name, ref.ty)) = annotations := by
  induction annotations generalizing environment with
  | nil => rfl
  | cons head annotations ih =>
      rw [paramRefs, List.map_cons, ih]
      rfl

@[simp] theorem paramRefs_map_name :
    (environment.paramRefs annotations).map (·.name) = annotations.map Prod.fst := by
  conv => rhs; rw [← environment.paramRefs_map annotations]
  simp [Function.comp_def]

@[simp] theorem paramRefs_map_ty :
    (environment.paramRefs annotations).map (·.ty) = annotations.map Prod.snd := by
  conv => rhs; rw [← environment.paramRefs_map annotations]
  simp [Function.comp_def]

@[simp] theorem paramRefs_eq_nil_iff :
    environment.paramRefs annotations = [] ↔ annotations = [] := by
  cases annotations <;> simp [paramRefs]

variable {environment annotations}

theorem scope_of_mem_paramRefs {ref : Ref} (member : ref ∈ environment.paramRefs annotations) :
    ref.scope = .param := by
  induction annotations generalizing environment with
  | nil => exact absurd member List.not_mem_nil
  | cons head annotations ih =>
      rcases List.mem_cons.mp member with rfl | member
      · rfl
      · exact ih member

theorem annotation_of_mem_paramRefs {ref : Ref}
    (member : ref ∈ environment.paramRefs annotations) : (ref.name, ref.ty) ∈ annotations := by
  rw [← environment.paramRefs_map annotations]
  exact List.mem_map_of_mem member

end withParams

section withGlobal

variable (environment : Environment) (name : Name) (ty : Ty)

@[simp] theorem policy_withGlobal :
    (environment.withGlobal name ty).policy = environment.policy := rfl

@[simp] theorem frames_withGlobal :
    (environment.withGlobal name ty).frames = environment.frames := rfl

@[simp] theorem globals_withGlobal :
    (environment.withGlobal name ty).globals =
      environment.globalRef name ty :: environment.globals := rfl

theorem mem_visible_withGlobal {ref : Ref} :
    ref ∈ (environment.withGlobal name ty).visible ↔
      ref = environment.globalRef name ty ∨ ref ∈ environment.visible := by
  simp only [visible, frames_withGlobal, globals_withGlobal, List.mem_append, List.mem_cons]
  exact or_left_comm

theorem visible_withGlobal (atRoot : environment.frames = []) :
    (environment.withGlobal name ty).visible =
      environment.globalRef name ty :: environment.visible := by
  simp [visible, atRoot]

end withGlobal

/-! ## Running the steps that bind -/

theorem run_bindGlobal (environment : Environment) (name : Name) (ty : Ty) :
    (bindGlobal name ty).run environment =
      (.ok (environment.globalRef name ty), environment.withGlobal name ty) := rfl

theorem run_bindParam_enter (environment : Environment) (name : Name) (ty : Ty) :
    (bindParam name ty).run environment.enter =
      (.ok (environment.paramRef name ty), environment.withParams [(name, ty)]) := rfl

theorem run_bindParam_outside {environment : Environment} (opened : environment.frames = [])
    (name : Name) (ty : Ty) :
    (bindParam name ty).run environment =
      (.error (.defect (.paramOutsideLambda (environment.paramRef name ty))),
        environment.issue name) := by
  simp only [bindParam, Pass.run_step, opened]
  rfl

section inside

variable {environment : Environment} {frame : List Ref} {frames : List (List Ref)}

theorem run_bindParam (opened : environment.frames = frame :: frames) (name : Name) (ty : Ty) :
    (bindParam name ty).run environment =
      (.ok (environment.paramRef name ty),
        { environment.issue name with
          frames := (environment.paramRef name ty :: frame) :: frames }) := by
  simp only [bindParam, Pass.run_step, opened]
  rfl

/-- Parameters join those that the innermost frame holds already. -/
theorem run_bindParams (opened : environment.frames = frame :: frames)
    (annotations : List (Name × Ty)) :
    (bindParams annotations).run environment =
      (.ok (environment.paramRefs annotations),
        { environment.issueAll (annotations.map Prod.fst) with
          frames := ((environment.paramRefs annotations).reverse ++ frame) :: frames }) := by
  induction annotations generalizing environment frame with
  | nil =>
      cases environment
      cases opened
      rfl
  | cons head annotations ih =>
      obtain ⟨name, ty⟩ := head
      have opened' : { environment.issue name with
          frames := (environment.paramRef name ty :: frame) :: frames }.frames =
            (environment.paramRef name ty :: frame) :: frames := rfl
      have same : { environment.issue name with
          frames := (environment.paramRef name ty :: frame) :: frames }.paramRefs annotations =
            (environment.issue name).paramRefs annotations := paramRefs_congr annotations rfl
      simp only [bindParams, Pass.run_bind, run_bindParam opened, ih opened', same, Pass.run_pure]
      simp [paramRefs, issueAll, issue]

end inside

theorem run_bindParams_enter (environment : Environment) (annotations : List (Name × Ty)) :
    (bindParams annotations).run environment.enter =
      (.ok (environment.paramRefs annotations), environment.withParams annotations) := by
  have opened : environment.enter.frames = [] :: environment.frames := rfl
  have same : environment.enter.paramRefs annotations = environment.paramRefs annotations :=
    paramRefs_congr annotations rfl
  rw [run_bindParams opened, same, List.append_nil]
  rfl

/-! ## Looking names up -/

theorem resolve?_eq_some {environment : Environment} {name : Name} {ref : Ref}
    (found : environment.resolve? name = some ref) :
    ref ∈ environment.visible ∧ ref.name = name := by
  have named := List.find?_some found
  exact ⟨List.mem_of_find?_eq_some found, by simpa using named⟩

theorem lookup_eq_ok_iff {environment : Environment} {name : Name} {ref : Ref} :
    environment.lookup name = .ok ref ↔
      environment.resolve? name = some ref ∨
        environment.resolve? name = none ∧ environment.policy = .keep ∧ ref = .unresolved name := by
  unfold lookup
  cases environment.resolve? name with
  | some found => simp
  | none => cases environment.policy <;> simp [eq_comm]

theorem resolve?_withParams (environment : Environment) (annotations : List (Name × Ty))
    (name : Name) :
    (environment.withParams annotations).resolve? name =
      ((environment.paramRefs annotations).reverse.find? (·.name = name)).or
        (environment.resolve? name) := by
  rw [resolve?, visible_withParams, List.find?_append]
  rfl

theorem resolve?_withParams_of_not_mem {environment : Environment}
    {annotations : List (Name × Ty)} {name : Name} (absent : name ∉ annotations.map Prod.fst) :
    (environment.withParams annotations).resolve? name = environment.resolve? name := by
  have missed : (environment.paramRefs annotations).reverse.find? (·.name = name) = none := by
    rw [List.find?_eq_none]
    intro ref member named
    have annotated := annotation_of_mem_paramRefs (List.mem_reverse.mp member)
    exact absent (List.mem_map.mpr ⟨_, annotated, by simpa using named⟩)
  rw [resolve?_withParams, missed, Option.none_or]

/-- The name of a parameter stands for a parameter in the body. -/
theorem resolve?_withParams_of_mem {environment : Environment}
    {annotations : List (Name × Ty)} {name : Name} (member : name ∈ annotations.map Prod.fst) :
    ∃ ref ∈ environment.paramRefs annotations, ref.name = name ∧
      (environment.withParams annotations).resolve? name = some ref := by
  rw [← environment.paramRefs_map_name, List.mem_map] at member
  obtain ⟨ref, member, named⟩ := member
  have found : ((environment.paramRefs annotations).reverse.find? (·.name = name)).isSome := by
    rw [List.find?_isSome]
    exact ⟨ref, List.mem_reverse.mpr member, by simpa using named⟩
  obtain ⟨first, found⟩ := Option.isSome_iff_exists.mp found
  refine ⟨first, List.mem_reverse.mp (List.mem_of_find?_eq_some found), ?_, ?_⟩
  · simpa using List.find?_some found
  · rw [resolve?_withParams, found, Option.some_or]

theorem resolve?_withGlobal {environment : Environment} (atRoot : environment.frames = [])
    (bound : Name) (ty : Ty) (name : Name) :
    (environment.withGlobal bound ty).resolve? name =
      if bound = name then some (environment.globalRef bound ty)
      else environment.resolve? name := by
  rw [resolve?, visible_withGlobal _ _ _ atRoot, List.find?_cons]
  by_cases same : bound = name <;> simp [same, globalRef, resolve?]

end SimplyTyped.Environment
