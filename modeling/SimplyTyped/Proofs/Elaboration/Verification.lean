import SimplyTyped.Core.Occurrences
import SimplyTyped.Proofs.Core.Verification
import SimplyTyped.Proofs.Elaboration.Derivation

/-!
# Verification of elaborated programs

Elaboration defers what depends on an unresolved name, and verification defers nothing.
The two agree because verification meets the unresolved name first: an elaborated
program is refused at its first unresolved reference, and verified if it has none.
-/

set_option autoImplicit false

namespace SimplyTyped

def AllResolved (refs : List Ref) : Prop :=
  ∀ ref ∈ refs, ¬ ref.IsUnresolved

theorem allResolved_append {left right : List Ref} :
    AllResolved (left ++ right) ↔ AllResolved left ∧ AllResolved right := by
  simp [AllResolved, or_imp, forall_and]

def AllKnown (refs : List Ref) : Prop :=
  ∀ ref ∈ refs, ref.ty.Known

theorem allKnown_append {left right : List Ref} :
    AllKnown (left ++ right) ↔ AllKnown left ∧ AllKnown right := by
  simp [AllKnown, or_imp, forall_and]

theorem Environment.allKnown_withParams {environment : Environment}
    {annotations : List (Name × Ty)} (visible : AllKnown environment.visible)
    (known : ∀ param ∈ annotations, param.2.Known) :
    AllKnown (environment.withParams annotations).visible := by
  rw [visible_withParams, allKnown_append]
  refine ⟨fun ref member => ?_, visible⟩
  exact known _ (annotation_of_mem_paramRefs (List.mem_reverse.mp member))

theorem ElaboratesAll.ne_nil {environment : Environment} {trees : List Tree} {exprs : List Expr}
    (derived : ElaboratesAll environment trees exprs) (some : trees ≠ []) : exprs ≠ [] := by
  cases derived with
  | nil => exact absurd rfl some
  | cons => exact List.cons_ne_nil _ _

mutual

/-- Where nothing unresolved is used, and everything in sight has a known type, so has
every expression. -/
theorem Elaborates.known_ty {environment : Environment} {tree : Tree} {expr : Expr}
    (derived : Elaborates environment tree expr) (visible : AllKnown environment.visible)
    (resolved : AllResolved expr.checkedUses) : expr.ty.Known := by
  cases derived with
  | var found =>
      rcases Environment.lookup_eq_ok_iff.mp found with found | ⟨-, -, rfl⟩
      · exact visible _ (Environment.resolve?_eq_some found).1
      · exact absurd rfl (resolved _ List.mem_cons_self)
  | int => trivial
  | bool => trivial
  | app _ function values typed =>
      obtain ⟨valuesResolved, functionResolved⟩ := allResolved_append.mp resolved
      have functionKnown := function.known_ty visible functionResolved
      have valuesKnown := values.known_ty visible valuesResolved
      rw [Ty.applyDeferred_of_known functionKnown valuesKnown, Ty.apply_eq_ok_iff] at typed
      rw [typed, Ty.known_arrows] at functionKnown
      exact functionKnown.2
  | lambda accepted body =>
      obtain ⟨-, -, -, known⟩ := Param.checkAll_eq_ok_iff.mp accepted
      refine Ty.known_arrows.mpr ⟨fun ty member => ?_,
        body.known_ty (Environment.allKnown_withParams visible known) resolved⟩
      rw [Environment.paramRefs_map_ty] at member
      obtain ⟨param, annotated, rfl⟩ := List.mem_map.mp member
      exact known param annotated
  | letIn value same body typed =>
      subst same
      obtain ⟨valueResolved, bodyResolved⟩ := allResolved_append.mp resolved
      rw [Expr.checkedUsesAll, Expr.checkedUsesAll, List.append_nil] at valueResolved
      have valueKnown := value.known_ty visible valueResolved
      have bodyKnown := body.known_ty
        (Environment.allKnown_withParams visible (by simpa using valueKnown)) bodyResolved
      rw [Ty.applyDeferred_domain, if_pos ⟨valueKnown, bodyKnown⟩] at typed
      cases typed
      exact bodyKnown

theorem ElaboratesAll.known_ty {environment : Environment} {trees : List Tree}
    {exprs : List Expr} (derived : ElaboratesAll environment trees exprs)
    (visible : AllKnown environment.visible) (resolved : AllResolved (Expr.checkedUsesAll exprs)) :
    ∀ ty ∈ exprs.map Expr.ty, ty.Known := by
  cases derived with
  | nil => exact fun _ member => absurd member List.not_mem_nil
  | cons head tail =>
      obtain ⟨headResolved, tailResolved⟩ := allResolved_append.mp resolved
      intro ty member
      rcases List.mem_cons.mp member with rfl | member
      · exact head.known_ty visible headResolved
      · exact tail.known_ty visible tailResolved ty member

end

/-! ## Runs that stop at the first unresolved reference -/

/-- `StopsAtUnresolved uses pass context value final` says that `pass` uses `uses` in that
order: it fails at the first of them that is unresolved, and yields `value` and leaves
`final` if there is none. -/
def StopsAtUnresolved {α : Type} (uses : List Ref) (pass : Pass Context α) (context : Context)
    (value : α) (final : Context) : Prop :=
  match uses.find? (·.IsUnresolved) with
  | none => pass.run context = (.ok value, final)
  | some ref => (pass.run context).1 = .error (.undefined ref)

namespace StopsAtUnresolved

variable {α β : Type} {pass : Pass Context α} {next : α → Pass Context β}
  {context middle final : Context} {value : α} {result : β} {uses more : List Ref}

theorem pure (value : α) (context : Context) :
    StopsAtUnresolved [] (Pure.pure value) context value context := rfl

/-- The next step matters only if the one before it uses resolved references alone. -/
theorem bind (first : StopsAtUnresolved uses pass context value middle)
    (second : AllResolved uses → StopsAtUnresolved more (next value) middle result final) :
    StopsAtUnresolved (uses ++ more) (pass >>= next) context result final := by
  unfold StopsAtUnresolved at first ⊢
  rw [List.find?_append, Pass.run_bind]
  cases stop : uses.find? (·.IsUnresolved) with
  | some ref =>
      rcases run : pass.run context with ⟨outcome, last⟩
      simp only [stop, run] at first
      subst outcome
      rfl
  | none =>
      have resolved : AllResolved uses := by simpa [AllResolved] using stop
      simp only [stop] at first
      simp only [first]
      exact second resolved

/-- A step that succeeds and uses nothing may stand in front. -/
theorem bind_of_run (run : pass.run context = (.ok value, middle))
    (second : StopsAtUnresolved more (next value) middle result final) :
    StopsAtUnresolved more (pass >>= next) context result final := by
  have first : StopsAtUnresolved [] pass context value middle := run
  exact first.bind fun _ => second

/-- A step that uses nothing may follow if it succeeds after all resolved uses. -/
theorem bind_run (first : StopsAtUnresolved uses pass context value middle)
    (run : AllResolved uses → (next value).run middle = (.ok result, final)) :
    StopsAtUnresolved uses (pass >>= next) context result final := by
  rw [← List.append_nil uses]
  exact first.bind fun resolved => run resolved

end StopsAtUnresolved

namespace Expr

theorem stopsAtUnresolved_var {ref : Ref} {context : Context}
    (visible : ref.IsUnresolved ∨ ref.ty.Known ∧ context.Sees ref) :
    StopsAtUnresolved [ref] (var ref).verify context ref.ty context := by
  rw [verify]
  by_cases unresolved : ref.IsUnresolved
  · simp [StopsAtUnresolved, Context.typeOf, unresolved]
  · obtain ⟨known, sees⟩ := visible.resolve_left unresolved
    simp [StopsAtUnresolved, Context.typeOf, unresolved, known, sees]

theorem checkedUses_abstract (params : List Ref) (body : Expr) :
    (abstract params body).checkedUses = body.checkedUses := by
  rw [abstract, checkedUses]

/-- A lambda that is annotated as its parameters and its body demand is refused only for
its body. -/
theorem stopsAtUnresolved_abstract {params : List Ref} {body : Expr} {context : Context}
    (accepted : checkParams params = .ok ())
    (stops : StopsAtUnresolved body.checkedUses body.verify (context.enter params) body.ty
      (context.enter params)) :
    StopsAtUnresolved body.checkedUses (abstract params body).verify context
      (abstract params body).ty context := by
  have checked : Pass.run (PassT.lift (checkParams params)) context = (.ok (), context) :=
    Prod.ext accepted rfl
  have derives : deriveLambda (abstract params body).ty params body.ty =
      .ok (abstract params body).ty := if_pos rfl
  rw [abstract, verify]
  refine .bind_of_run checked ?_
  refine .bind_of_run (Pass.run_gets ..) ?_
  refine .bind_of_run (Pass.run_modify ..) ?_
  refine stops.bind_run fun _ => ?_
  simp only [Pass.run_bind, Pass.run_modify, Context.leave_enter]
  exact Prod.ext derives rfl

theorem stopsAtUnresolved_nil (context : Context) :
    StopsAtUnresolved (checkedUsesAll []) (verifyAll []) context [] context := by
  rw [verifyAll]
  exact .pure [] context

theorem stopsAtUnresolved_cons {expr : Expr} {exprs : List Expr} {context : Context}
    (head : StopsAtUnresolved expr.checkedUses expr.verify context expr.ty context)
    (tail : StopsAtUnresolved (checkedUsesAll exprs) (verifyAll exprs) context (exprs.map Expr.ty)
      context) :
    StopsAtUnresolved (checkedUsesAll (expr :: exprs)) (verifyAll (expr :: exprs)) context
      ((expr :: exprs).map Expr.ty) context := by
  rw [checkedUsesAll, verifyAll]
  exact head.bind fun _ => tail.bind_run fun _ => rfl

/-- Once all parts are resolved, the types of the parts decide about an application. -/
theorem stopsAtUnresolved_app {ty : Ty} {callee : Expr} {arguments : List Expr}
    {context : Context} (some : arguments ≠ [])
    (first : StopsAtUnresolved (checkedUsesAll arguments) (verifyAll arguments) context
      (arguments.map Expr.ty) context)
    (second : AllResolved (checkedUsesAll arguments) →
      StopsAtUnresolved callee.checkedUses callee.verify context callee.ty context)
    (typed : AllResolved (checkedUsesAll arguments ++ callee.checkedUses) →
      callee.ty.apply (arguments.map Expr.ty) = .ok ty) :
    StopsAtUnresolved (app ty callee arguments).checkedUses (app ty callee arguments).verify context
      ty context := by
  rw [verify, if_neg (by simpa using some), checkedUses]
  refine first.bind fun argumentsResolved => (second argumentsResolved).bind_run
    fun calleeResolved => ?_
  have accepted := typed (allResolved_append.mpr ⟨argumentsResolved, calleeResolved⟩)
  simp [deriveApplication, accepted]

end Expr

/-- Whatever is in sight has a known type, and verification sees it. -/
structure Environment.VisibleIn (environment : Environment) (context : Context) : Prop where
  known : AllKnown environment.visible
  sees : ∀ ref ∈ environment.visible, context.Sees ref

theorem Environment.visibleIn_empty (policy : Policy) : (empty policy).VisibleIn .empty :=
  ⟨fun _ member => absurd member List.not_mem_nil, fun _ member => absurd member List.not_mem_nil⟩

theorem Environment.VisibleIn.issueAll {environment : Environment} {context : Context}
    (visible : environment.VisibleIn context) (names : List Name) :
    (environment.issueAll names).VisibleIn context :=
  ⟨visible.known, visible.sees⟩

theorem Environment.VisibleIn.withParams {environment : Environment} {context : Context}
    (visible : environment.VisibleIn context) {annotations : List (Name × Ty)}
    (known : ∀ param ∈ annotations, param.2.Known) :
    (environment.withParams annotations).VisibleIn
      (context.enter (environment.paramRefs annotations)) := by
  refine ⟨allKnown_withParams visible.known known, fun ref member => ?_⟩
  rw [visible_withParams, List.mem_append, List.mem_reverse] at member
  rcases member with member | member
  · rw [Context.Sees, scope_of_mem_paramRefs member]
    exact List.mem_append_right _ member
  · exact Context.sees_enter (visible.sees ref member)

theorem Environment.checkParams_paramRefs {environment : Environment}
    {annotations : List (Name × Ty)} (some : annotations ≠ [])
    (known : ∀ param ∈ annotations, param.2.Known) :
    Expr.checkParams (environment.paramRefs annotations) = .ok () := by
  refine Expr.checkParams_eq_ok_iff.mpr ⟨by simpa using some, fun ref member => ?_⟩
  exact ⟨scope_of_mem_paramRefs member, known _ (annotation_of_mem_paramRefs member)⟩

mutual

theorem Elaborates.stopsAtUnresolved {environment : Environment} {tree : Tree} {expr : Expr}
    (derived : Elaborates environment tree expr) {context : Context}
    (visible : environment.VisibleIn context) :
    StopsAtUnresolved expr.checkedUses expr.verify context expr.ty context := by
  cases derived with
  | @var _ _ ref found =>
      refine Expr.stopsAtUnresolved_var ?_
      rcases Environment.lookup_eq_ok_iff.mp found with found | ⟨-, -, rfl⟩
      · have member := (Environment.resolve?_eq_some found).1
        exact .inr ⟨visible.known ref member, visible.sees ref member⟩
      · exact .inl rfl
  | int =>
      rw [Expr.verify]
      exact .pure Ty.int context
  | bool =>
      rw [Expr.verify]
      exact .pure Ty.bool context
  | app some function values typed =>
      have valuesStop := values.stopsAtUnresolved (visible.issueAll _)
      have functionStops := function.stopsAtUnresolved visible
      refine Expr.stopsAtUnresolved_app (values.ne_nil some) valuesStop
        (fun _ => functionStops) fun resolved => ?_
      obtain ⟨valuesResolved, functionResolved⟩ := allResolved_append.mp resolved
      rw [← typed, Ty.applyDeferred_of_known (function.known_ty visible.known functionResolved)
        (values.known_ty visible.known valuesResolved)]
  | lambda accepted body =>
      obtain ⟨some, -, -, known⟩ := Param.checkAll_eq_ok_iff.mp accepted
      rw [Expr.checkedUses_abstract]
      exact Expr.stopsAtUnresolved_abstract (Environment.checkParams_paramRefs some known)
        (body.stopsAtUnresolved (visible.withParams known))
  | @letIn _ middle name _ _ value body ty valueDerived same bodyDerived typed =>
      subst same
      have valueStops := valueDerived.stopsAtUnresolved visible
      have valueUses : Expr.checkedUsesAll [value] = value.checkedUses := by
        simp [Expr.checkedUsesAll]
      have annotated : AllResolved value.checkedUses →
          ∀ param ∈ [(name, value.ty)], param.2.Known := by
        simpa using valueDerived.known_ty visible.known
      refine Expr.stopsAtUnresolved_app (List.cons_ne_nil _ _)
        (Expr.stopsAtUnresolved_cons valueStops (Expr.stopsAtUnresolved_nil context)) ?_ ?_
      -- An unresolved value is reported ahead of the parameter that took its type over.
      · intro valueResolved
        have known := annotated (valueUses ▸ valueResolved)
        rw [Expr.checkedUses_abstract]
        exact Expr.stopsAtUnresolved_abstract
          (Environment.checkParams_paramRefs (List.cons_ne_nil _ _) known)
          (bodyDerived.stopsAtUnresolved ((visible.issueAll _).withParams known))
      · intro resolved
        rw [valueUses, Expr.checkedUses_abstract] at resolved
        obtain ⟨valueResolved, bodyResolved⟩ := allResolved_append.mp resolved
        have known := annotated valueResolved
        have bodyKnown := bodyDerived.known_ty
          (Environment.allKnown_withParams visible.known known) bodyResolved
        rw [Ty.applyDeferred_domain, if_pos ⟨known _ List.mem_cons_self, bodyKnown⟩] at typed
        cases typed
        exact Ty.apply_eq_ok_iff.mpr rfl

theorem ElaboratesAll.stopsAtUnresolved {environment : Environment} {trees : List Tree}
    {exprs : List Expr} (derived : ElaboratesAll environment trees exprs) {context : Context}
    (visible : environment.VisibleIn context) :
    StopsAtUnresolved (Expr.checkedUsesAll exprs) (Expr.verifyAll exprs) context
      (exprs.map Expr.ty) context := by
  cases derived with
  | nil => exact Expr.stopsAtUnresolved_nil context
  | cons head tail =>
      exact Expr.stopsAtUnresolved_cons (head.stopsAtUnresolved visible)
        (tail.stopsAtUnresolved (visible.issueAll _))

end

/-! ## Programs -/

theorem Environment.VisibleIn.withGlobal {environment : Environment} {context : Context}
    (visible : environment.VisibleIn context) (name : Name) {ty : Ty} (known : ty.Known) :
    (environment.withGlobal name ty).VisibleIn
      (context.addGlobal (environment.globalRef name ty)) := by
  constructor
  · intro ref member
    rcases (mem_visible_withGlobal ..).mp member with rfl | member
    · exact known
    · exact visible.known ref member
  · intro ref member
    rcases (mem_visible_withGlobal ..).mp member with rfl | member
    · exact List.mem_append_right _ List.mem_cons_self
    · exact Context.sees_addGlobal (visible.sees ref member)

namespace Program

theorem checkedUses_cons (binding : Binding) (bindings : List Binding) (entry : Expr) :
    checkedUses ⟨binding :: bindings, entry⟩ =
      binding.value.checkedUses ++ checkedUses ⟨bindings, entry⟩ := by
  simp [checkedUses]

end Program

theorem Binding.stopsAtUnresolved {name : Ref} {value : Expr} {context : Context}
    (global : name.scope = .global) (same : name.ty = value.ty)
    (stops : StopsAtUnresolved value.checkedUses value.verify context value.ty context) :
    StopsAtUnresolved value.checkedUses (Binding.mk name value).verify context ()
      (context.addGlobal name) := by
  refine stops.bind_run fun _ => ?_
  simp [check, global, same, Pass.run_bind]

theorem ElaboratesProgram.stopsAtUnresolved {environment : Environment} {tree : Tree}
    {program : Program} (derived : ElaboratesProgram environment tree program) {context : Context}
    (visible : environment.VisibleIn context) :
    StopsAtUnresolved program.checkedUses program.verifyPass context program.ty
      ⟨context.globals ++ program.bindings.map (·.name), context.locals⟩ := by
  induction derived generalizing context with
  | entry _ entry =>
      rw [List.map_nil, List.append_nil]
      exact entry.stopsAtUnresolved visible
  | @letIn _ middle name _ _ value bindings entry valueDerived same _ ih =>
      subst same
      have valueStops := valueDerived.stopsAtUnresolved visible
      rw [Program.checkedUses_cons, Program.verifyPass_cons]
      refine (Binding.stopsAtUnresolved rfl rfl valueStops).bind fun resolved => ?_
      have known := valueDerived.known_ty visible.known resolved
      have rest := ih ((visible.issueAll _).withGlobal name known)
      rw [Context.addGlobal, List.append_assoc] at rest
      exact rest

/-- An elaborated program is refused at the first unresolved reference that verification
meets, as undefined, and is verified if it uses none. It never breaks a promise, and no
type error is left to be found in it. -/
theorem verify_of_toProgram {tree : Tree} {policy : Policy} {program : Program}
    (elaborated : tree.toProgram policy = .ok program) :
    program.verify =
      match program.checkedUses.find? (·.IsUnresolved) with
      | none => .ok program
      | some ref => .error (.undefined ref) := by
  have derived := Tree.toProgram_eq_ok_iff.mp elaborated
  have visible : (Environment.empty policy).VisibleIn .empty :=
    ⟨fun _ member => absurd member List.not_mem_nil, fun _ member => absurd member List.not_mem_nil⟩
  have stops := derived.stopsAtUnresolved visible
  unfold StopsAtUnresolved at stops
  rw [Program.verify, Pass.evaluate_eq]
  cases first : program.checkedUses.find? (·.IsUnresolved) with
  | none =>
      simp only [first] at stops
      rw [stops]
      rfl
  | some ref =>
      simp only [first] at stops
      rw [stops]
      rfl

/-- A global and a parameter that take over the unknown type of a deferred application
are not blamed for it: the name that the application could not resolve is. -/
theorem verify_of_toProgram_deferred :
    ∃ program,
      (Tree.letIn ⟨"g"⟩ (.app (.var ⟨"f"⟩) [.int 1])
        (.lambda [⟨⟨"x"⟩, some .int⟩]
          (.letIn ⟨"y"⟩ (.app (.var ⟨"h"⟩) [.var ⟨"g"⟩])
            (.app (.var ⟨"y"⟩) [.var ⟨"k"⟩, .var ⟨"x"⟩])))).toProgram .keep = .ok program ∧
      program.verify = .error (.undefined (.unresolved ⟨"f"⟩)) := by
  refine ⟨?program, ?elaborated, (verify_of_toProgram ?elaborated).trans ?reported⟩
  case elaborated => rfl
  case reported => rfl

end SimplyTyped
