import SimplyTyped.Core.Annotated
import SimplyTyped.Proofs.Elaboration.Verification

/-!
# Annotations of elaborated programs

Elaboration annotates in three places: at an application, at a lambda, and at the applied
lambda that a `let` becomes. The annotations agree at every node, also where they are
unknown and verification would never come to look at them. What is in sight in the
environment is bound in the program around the place.
-/

set_option autoImplicit false

namespace SimplyTyped

namespace Expr

theorem annotated_app {visible : List Ref} {ty : Ty} {callee : Expr} {arguments : List Expr}
    (some : arguments ≠ []) (function : callee.Annotated visible)
    (values : AllAnnotated visible arguments)
    (typed : callee.ty.applyDeferred (arguments.map Expr.ty) = .ok ty) :
    (app ty callee arguments).Annotated visible := by
  simp only [Ty.applyDeferred_eq_ok_iff, List.forall_mem_map] at typed
  exact ⟨some, function, values, typed⟩

end Expr

namespace Environment

variable {environment : Environment} {visible : List Ref}

theorem visible_withParams_subset (inSight : environment.visible ⊆ visible)
    (annotations : List (Name × Ty)) :
    (environment.withParams annotations).visible ⊆
      environment.paramRefs annotations ++ visible := by
  rw [visible_withParams]
  intro ref member
  rcases List.mem_append.mp member with param | outer
  · exact List.mem_append_left _ (List.mem_reverse.mp param)
  · exact List.mem_append_right _ (inSight outer)

theorem annotated_abstract (environment : Environment) {annotations : List (Name × Ty)}
    (some : annotations ≠ []) {body : Expr}
    (inner : body.Annotated (environment.paramRefs annotations ++ visible)) :
    (Expr.abstract (environment.paramRefs annotations) body).Annotated visible :=
  ⟨by simpa using some, fun _ => scope_of_mem_paramRefs, inner, rfl⟩

theorem visible_withGlobal_subset (inSight : environment.visible ⊆ visible) (name : Name)
    (ty : Ty) :
    (environment.withGlobal name ty).visible ⊆ environment.globalRef name ty :: visible := by
  intro ref member
  rcases (mem_visible_withGlobal ..).mp member with rfl | outer
  · exact List.mem_cons_self
  · exact List.mem_cons_of_mem _ (inSight outer)

end Environment

mutual

theorem Elaborates.annotated {environment : Environment} {tree : Tree} {expr : Expr}
    (derived : Elaborates environment tree expr) {visible : List Ref}
    (inSight : environment.visible ⊆ visible) : expr.Annotated visible := by
  cases derived with
  | var found =>
      rcases Environment.lookup_eq_ok_iff.mp found with found | ⟨-, -, rfl⟩
      · exact .inr (inSight (Environment.resolve?_eq_some found).1)
      · exact .inl rfl
  | int => trivial
  | bool => trivial
  | app some function values typed =>
      exact Expr.annotated_app (values.ne_nil some) (function.annotated inSight)
        (values.annotated inSight) typed
  | @lambda _ _ annotations _ _ accepted body =>
      obtain ⟨some, -⟩ := Param.checkAll_eq_ok_iff.mp accepted
      have inner := body.annotated (Environment.visible_withParams_subset inSight annotations)
      exact environment.annotated_abstract some inner
  | @letIn _ middle name tree _ value _ _ valueDerived same bodyDerived typed =>
      subst same
      have issued : (environment.issueAll tree.binders).visible ⊆ visible := inSight
      have inner := bodyDerived.annotated
        (Environment.visible_withParams_subset issued [(name, value.ty)])
      have function := Environment.annotated_abstract _ (List.cons_ne_nil _ _) inner
      exact Expr.annotated_app (List.cons_ne_nil _ _) function
        ⟨valueDerived.annotated inSight, trivial⟩ typed

theorem ElaboratesAll.annotated {environment : Environment} {trees : List Tree}
    {exprs : List Expr} (derived : ElaboratesAll environment trees exprs) {visible : List Ref}
    (inSight : environment.visible ⊆ visible) : Expr.AllAnnotated visible exprs := by
  cases derived with
  | nil => trivial
  | cons head tail => exact ⟨head.annotated inSight, tail.annotated inSight⟩

end

theorem ElaboratesProgram.annotated {environment : Environment} {tree : Tree}
    {program : Program} (derived : ElaboratesProgram environment tree program)
    {visible : List Ref} (inSight : environment.visible ⊆ visible) :
    AnnotatedFrom visible program.entry program.bindings := by
  induction derived generalizing visible with
  | entry _ entry => exact entry.annotated inSight
  | @letIn environment middle name tree _ value _ _ valueDerived same _ ih =>
      subst same
      have issued : (environment.issueAll tree.binders).visible ⊆ visible := inSight
      have rest := ih (Environment.visible_withGlobal_subset issued name value.ty)
      exact ⟨rfl, rfl, valueDerived.annotated inSight, rest⟩

/-- The annotations of an elaborated program agree at every node, whether or not all of its
names are resolved, and a resolved reference is that of a binder around it. -/
theorem annotated_of_toProgram {tree : Tree} {policy : Policy} {program : Program}
    (elaborated : tree.toProgram policy = .ok program) : program.Annotated :=
  (Tree.toProgram_eq_ok_iff.mp elaborated).annotated (List.nil_subset _)

/-- An unknown type passes through a global, a `let` and a lambda, and what does not depend on
it is typed all the same. -/
theorem annotated_of_toProgram_deferred :
    ∃ program,
      (Tree.letIn ⟨"g"⟩ (.app (.var ⟨"f"⟩) [.int 1])
        (.lambda [⟨⟨"x"⟩, some .int⟩]
          (.letIn ⟨"y"⟩ (.lambda [⟨⟨"z"⟩, some .bool⟩] (.var ⟨"g"⟩))
            (.app (.lambda [⟨⟨"x"⟩, some .bool⟩] (.var ⟨"x"⟩))
              [.app (.var ⟨"y"⟩) [.var ⟨"x"⟩]])))).toProgram .keep = .ok program ∧
      program.Annotated := by
  refine ⟨?program, ?elaborated, annotated_of_toProgram ?elaborated⟩
  case elaborated => rfl

end SimplyTyped
