import SimplyTyped.Elaboration.Basic
import SimplyTyped.Proofs.Elaboration.Environment
import SimplyTyped.Proofs.Ty.Application

/-!
# Successful elaborations

`Elaborates environment tree expr` derives the expression that a tree becomes, without
a state: the environment after each subtree is known from its binders. A run succeeds
exactly where there is a derivation (`run_elaborate_eq_ok_iff`, and
`run_elaborateProgram_eq_ok_iff` for trees at the root), so whatever holds of all
elaborated trees is proved by induction on derivations.
-/

set_option autoImplicit false

namespace SimplyTyped

namespace Param

/-- The first parameter is new and annotated with a known type, and new to the others. -/
theorem annotations_cons_eq_ok_iff {seen : List Name} {param : Param} {params : List Param}
    {annotated : List (Name × Ty)} :
    annotations seen (param :: params) = .ok annotated ↔
      ∃ ty tail, param.name ∉ seen ∧ param.ty = some ty ∧ ty.Known ∧
        annotations (param.name :: seen) params = .ok tail ∧
        annotated = (param.name, ty) :: tail := by
  obtain ⟨name, annotation⟩ := param
  by_cases new : name ∈ seen
  · simp [annotations, new]
  · cases annotation with
    | none => simp [annotations, new]
    | some ty =>
        by_cases known : ty.Known
        · cases rest : annotations (name :: seen) params with
          | error cause => simp [annotations, new, known, rest, Except.map]
          | ok tail => simp [annotations, new, known, rest, Except.map, eq_comm]
        · simp [annotations, new, known]

theorem annotations_eq_ok_iff {seen : List Name} {params : List Param}
    {annotated : List (Name × Ty)} :
    annotations seen params = .ok annotated ↔
      params = annotated.map (fun param => ⟨param.1, some param.2⟩) ∧
        (annotated.map Prod.fst).Nodup ∧ (∀ param ∈ annotated, param.1 ∉ seen) ∧
        ∀ param ∈ annotated, param.2.Known := by
  induction params generalizing seen annotated with
  | nil => cases annotated <;> simp [annotations]
  | cons param params ih =>
      rw [annotations_cons_eq_ok_iff]
      constructor
      · intro accepted
        obtain ⟨ty, tail, new, typed, known, rest, rfl⟩ := accepted
        obtain ⟨name, annotation⟩ := param
        cases typed
        obtain ⟨rfl, distinct, unseen, allKnown⟩ := ih.mp rest
        have absent : name ∉ tail.map Prod.fst := by
          intro member
          obtain ⟨param, member, same⟩ := List.mem_map.mp member
          exact List.ne_of_not_mem_cons (unseen param member) same
        have unseen : ∀ param ∈ tail, param.1 ∉ seen := fun param member =>
          List.not_mem_of_not_mem_cons (unseen param member)
        exact ⟨rfl, List.nodup_cons.mpr ⟨absent, distinct⟩,
          List.forall_mem_cons.mpr ⟨new, unseen⟩, List.forall_mem_cons.mpr ⟨known, allKnown⟩⟩
      · intro annotation
        obtain ⟨same, distinct, unseen, allKnown⟩ := annotation
        cases annotated with
        | nil => cases same
        | cons head tail =>
            cases same
            obtain ⟨absent, distinct⟩ := List.nodup_cons.mp distinct
            obtain ⟨new, unseen⟩ := List.forall_mem_cons.mp unseen
            obtain ⟨known, allKnown⟩ := List.forall_mem_cons.mp allKnown
            have fresh : ∀ param ∈ tail, param.1 ∉ head.1 :: seen := fun param member =>
              List.not_mem_cons_of_ne_of_not_mem
                (fun same => absent (List.mem_map.mpr ⟨param, member, same⟩)) (unseen param member)
            have rest := ih.mpr ⟨rfl, distinct, fresh, allKnown⟩
            exact ⟨head.2, tail, new, rfl, known, rest, rfl⟩

/-- A lambda binds one or more parameters of different names and known types. -/
theorem checkAll_eq_ok_iff {params : List Param} {annotated : List (Name × Ty)} :
    checkAll params = .ok annotated ↔
      annotated ≠ [] ∧ params = annotated.map (fun param => ⟨param.1, some param.2⟩) ∧
        (annotated.map Prod.fst).Nodup ∧ ∀ param ∈ annotated, param.2.Known := by
  have accepted : (annotations [] params).mapError Error.malformed = .ok annotated ↔
      annotations [] params = .ok annotated := by
    cases annotations [] params with
    | error cause => exact ⟨nofun, nofun⟩
    | ok found =>
        constructor <;> intro same
        · cases same
          rfl
        · cases same
          rfl
  cases params with
  | nil => cases annotated <;> simp [checkAll]
  | cons param params =>
      rw [checkAll, if_neg (by simp), accepted, annotations_eq_ok_iff]
      cases annotated <;> simp

theorem checkAll_map_name {params : List Param} {annotated : List (Name × Ty)}
    (accepted : checkAll params = .ok annotated) :
    params.map (·.name) = annotated.map Prod.fst := by
  obtain ⟨-, rfl, -⟩ := checkAll_eq_ok_iff.mp accepted
  simp [Function.comp_def]

end Param

mutual

/-- `Elaborates environment tree expr` says that `tree`, away from the root, becomes
`expr`. A `let` follows the rules of the application that it stands for. -/
inductive Elaborates : Environment → Tree → Expr → Prop where
  | var {environment name ref} :
      environment.lookup name = .ok ref → Elaborates environment (.var name) (.var ref)
  | int {environment value} : Elaborates environment (.int value) (.int value)
  | bool {environment value} : Elaborates environment (.bool value) (.bool value)
  | app {environment callee arguments function values ty} :
      arguments ≠ [] →
      Elaborates environment callee function →
      ElaboratesAll (environment.issueAll callee.binders) arguments values →
      function.ty.applyDeferred (values.map Expr.ty) = .ok ty →
      Elaborates environment (.app callee arguments) (.app ty function values)
  | lambda {environment params annotations tree body} :
      Param.checkAll params = .ok annotations →
      Elaborates (environment.withParams annotations) tree body →
      Elaborates environment (.lambda params tree)
        (.abstract (environment.paramRefs annotations) body)
  | letIn {environment middle name tree rest value body ty} :
      Elaborates environment tree value →
      middle = environment.issueAll tree.binders →
      Elaborates (middle.withParams [(name, value.ty)]) rest body →
      (Ty.arrow value.ty body.ty).applyDeferred [value.ty] = .ok ty →
      Elaborates environment (.letIn name tree rest)
        (.app ty (.abstract [middle.paramRef name value.ty] body) [value])

inductive ElaboratesAll : Environment → List Tree → List Expr → Prop where
  | nil {environment} : ElaboratesAll environment [] []
  | cons {environment tree trees expr exprs} :
      Elaborates environment tree expr →
      ElaboratesAll (environment.issueAll tree.binders) trees exprs →
      ElaboratesAll environment (tree :: trees) (expr :: exprs)

end

namespace Tree

open Environment

/-- A derivation of what a tree becomes is a run of elaboration, and the run changes
nothing but the indices in use. -/
def RunsAsDerived (tree : Tree) : Prop :=
  ∀ {environment final : Environment} {expr : Expr},
    tree.elaborate.run environment = (.ok expr, final) ↔
      Elaborates environment tree expr ∧ final = environment.issueAll tree.binders

theorem run_elaborateAll_eq_ok_iff_of {trees : List Tree}
    (each : ∀ tree ∈ trees, tree.RunsAsDerived) {environment final : Environment}
    {exprs : List Expr} :
    (elaborateAll trees).run environment = (.ok exprs, final) ↔
      ElaboratesAll environment trees exprs ∧ final = environment.issueAll (bindersAll trees) := by
  induction trees generalizing environment final exprs with
  | nil =>
      constructor
      · intro run
        cases run
        exact ⟨.nil, rfl⟩
      · intro derivation
        obtain ⟨derived, rfl⟩ := derivation
        cases derived
        rfl
  | cons tree trees ih =>
      have head : tree.RunsAsDerived := each tree List.mem_cons_self
      have tail : ∀ later ∈ trees, later.RunsAsDerived := fun later member =>
        each later (List.mem_cons_of_mem _ member)
      constructor
      · intro run
        simp only [elaborateAll, Pass.run_bind_eq_ok, Pass.run_pure] at run
        obtain ⟨expr, middle, headRun, rest, last, tailRun, ends⟩ := run
        cases ends
        obtain ⟨headDerived, rfl⟩ := head.mp headRun
        obtain ⟨tailDerived, rfl⟩ := (ih tail).mp tailRun
        exact ⟨.cons headDerived tailDerived, by simp [bindersAll]⟩
      · intro derivation
        obtain ⟨derived, rfl⟩ := derivation
        cases derived with
        | cons headDerived tailDerived =>
            simp only [elaborateAll, Pass.run_bind_eq_ok]
            have tailRun := (ih tail).mpr ⟨tailDerived, rfl⟩
            refine ⟨_, _, head.mpr ⟨headDerived, rfl⟩, _, _, tailRun, ?_⟩
            simp [bindersAll]

end Tree

namespace Expr

theorem applied_eq_ok_iff {callee result : Expr} {arguments : List Expr} :
    callee.applied arguments = .ok result ↔
      ∃ ty, callee.ty.applyDeferred (arguments.map Expr.ty) = .ok ty ∧
        result = app ty callee arguments := by
  cases outcome : callee.ty.applyDeferred (arguments.map Expr.ty) with
  | error refusal => simp [applied, outcome]
  | ok ty => simp [applied, outcome, eq_comm]

/-- A `let` never refuses its own value: it takes a parameter of exactly its type. -/
theorem letApplied_eq_ok_iff {name : Name} {param : Ref} {value body result : Expr}
    (same : param.ty = value.ty) :
    letApplied name param value body = .ok result ↔
      ∃ ty, (Ty.arrow value.ty body.ty).applyDeferred [value.ty] = .ok ty ∧
        result = app ty (abstract [param] body) [value] := by
  have function : (abstract [param] body).ty = .arrow value.ty body.ty := by
    simp [abstract, Expr.ty, same]
  simp only [letApplied, function, Ty.applyDeferred_domain]
  simp [eq_comm]

end Expr

namespace Tree

open Environment

theorem runsAsDerived_var (name : Name) : (var name).RunsAsDerived := by
  intro environment final expr
  constructor
  · intro run
    simp only [elaborate, Pass.run_bind_eq_ok, Pass.run_step, Pass.run_pure] at run
    obtain ⟨ref, middle, found, ends⟩ := run
    cases ends
    obtain ⟨outcome, rfl⟩ := Prod.mk.inj found
    exact ⟨.var outcome, rfl⟩
  · intro derivation
    obtain ⟨derived, rfl⟩ := derivation
    cases derived with
    | var found => simp [elaborate, found, binders]

theorem runsAsDerived_int (value : Int64) : (int value).RunsAsDerived := by
  intro environment final expr
  constructor
  · intro run
    cases run
    exact ⟨.int, rfl⟩
  · intro derivation
    obtain ⟨derived, rfl⟩ := derivation
    cases derived
    rfl

theorem runsAsDerived_bool (value : Bool) : (bool value).RunsAsDerived := by
  intro environment final expr
  constructor
  · intro run
    cases run
    exact ⟨.bool, rfl⟩
  · intro derivation
    obtain ⟨derived, rfl⟩ := derivation
    cases derived
    rfl

theorem runsAsDerived_app {callee : Tree} {arguments : List Tree}
    (calleeRuns : callee.RunsAsDerived) (each : ∀ argument ∈ arguments, argument.RunsAsDerived) :
    (app callee arguments).RunsAsDerived := by
  intro environment final expr
  have runAll : ∀ {environment final : Environment} {exprs : List Expr},
      (elaborateAll arguments).run environment = (.ok exprs, final) ↔
        ElaboratesAll environment arguments exprs ∧
          final = environment.issueAll (bindersAll arguments) :=
    run_elaborateAll_eq_ok_iff_of each
  constructor
  · intro run
    rw [elaborate] at run
    split at run
    · cases run
    · next some =>
        simp only [Pass.run_bind_eq_ok, Pass.run_lift] at run
        obtain ⟨function, middle, calleeRun, values, last, argumentsRun, ends⟩ := run
        obtain ⟨calleeDerived, rfl⟩ := calleeRuns.mp calleeRun
        obtain ⟨argumentsDerived, rfl⟩ := runAll.mp argumentsRun
        obtain ⟨accepted, rfl⟩ := Prod.mk.inj ends
        obtain ⟨ty, typed, rfl⟩ := Expr.applied_eq_ok_iff.mp accepted
        refine ⟨.app ?_ calleeDerived argumentsDerived typed, by simp [binders]⟩
        simpa using some
  · intro derivation
    obtain ⟨derived, rfl⟩ := derivation
    cases derived with
    | app some calleeDerived argumentsDerived typed =>
        rw [elaborate, if_neg (by simpa using some)]
        simp only [Pass.run_bind_eq_ok, Pass.run_lift]
        refine ⟨_, _, calleeRuns.mpr ⟨calleeDerived, rfl⟩, _, _,
          runAll.mpr ⟨argumentsDerived, rfl⟩, ?_⟩
        rw [Expr.applied_eq_ok_iff.mpr ⟨_, typed, rfl⟩]
        simp [binders]

theorem runsAsDerived_lambda (params : List Param) {body : Tree} (bodyRuns : body.RunsAsDerived) :
    (lambda params body).RunsAsDerived := by
  intro environment final expr
  constructor
  · intro run
    simp only [elaborate, Pass.run_bind_eq_ok, Pass.run_lift, Pass.run_modify] at run
    obtain ⟨annotations, start, checked, _, inner, entered, refs, bound, paramsRun, expr', last,
      bodyRun, _, left, leaves, ends⟩ := run
    obtain ⟨accepted, rfl⟩ := Prod.mk.inj checked
    cases entered
    rw [run_bindParams_enter] at paramsRun
    cases paramsRun
    obtain ⟨bodyDerived, rfl⟩ := bodyRuns.mp bodyRun
    cases leaves
    cases ends
    refine ⟨.lambda accepted bodyDerived, ?_⟩
    simp [binders, Param.checkAll_map_name accepted]
  · intro derivation
    obtain ⟨derived, rfl⟩ := derivation
    cases derived with
    | lambda accepted bodyDerived =>
        simp only [elaborate, Pass.run_bind_eq_ok, Pass.run_lift, Pass.run_modify]
        refine ⟨_, _, Prod.ext accepted rfl, _, _, rfl, _, _, run_bindParams_enter _ _, _, _,
          bodyRuns.mpr ⟨bodyDerived, rfl⟩, _, _, rfl, ?_⟩
        simp [binders, Param.checkAll_map_name accepted]

theorem runsAsDerived_letIn (name : Name) {value body : Tree} (valueRuns : value.RunsAsDerived)
    (bodyRuns : body.RunsAsDerived) : (letIn name value body).RunsAsDerived := by
  intro environment final expr
  constructor
  · intro run
    simp only [elaborate, Pass.run_bind_eq_ok, Pass.run_lift, Pass.run_modify] at run
    obtain ⟨bound, middle, valueRun, _, inner, entered, param, start, paramRun, expr', last,
      bodyRun, _, left, leaves, ends⟩ := run
    obtain ⟨valueDerived, rfl⟩ := valueRuns.mp valueRun
    cases entered
    rw [run_bindParam_enter] at paramRun
    cases paramRun
    obtain ⟨bodyDerived, rfl⟩ := bodyRuns.mp bodyRun
    cases leaves
    obtain ⟨accepted, rfl⟩ := Prod.mk.inj ends
    obtain ⟨ty, typed, rfl⟩ := (Expr.letApplied_eq_ok_iff rfl).mp accepted
    refine ⟨.letIn valueDerived rfl bodyDerived typed, ?_⟩
    simp [binders]
  · intro derivation
    obtain ⟨derived, rfl⟩ := derivation
    cases derived with
    | letIn valueDerived middle bodyDerived typed =>
        subst middle
        simp only [elaborate, Pass.run_bind_eq_ok, Pass.run_lift, Pass.run_modify]
        refine ⟨_, _, valueRuns.mpr ⟨valueDerived, rfl⟩, _, _, rfl, _, _,
          run_bindParam_enter _ _ _, _, _, bodyRuns.mpr ⟨bodyDerived, rfl⟩, _, _, rfl, ?_⟩
        rw [(Expr.letApplied_eq_ok_iff rfl).mpr ⟨_, typed, rfl⟩]
        simp [binders]

theorem runsAsDerived (tree : Tree) : tree.RunsAsDerived := by
  induction tree with
  | var name => exact runsAsDerived_var name
  | int value => exact runsAsDerived_int value
  | bool value => exact runsAsDerived_bool value
  | app _ _ callee arguments => exact runsAsDerived_app callee arguments
  | lambda params _ body => exact runsAsDerived_lambda params body
  | letIn name _ _ value body => exact runsAsDerived_letIn name value body

theorem run_elaborate_eq_ok_iff {tree : Tree} {environment final : Environment} {expr : Expr} :
    tree.elaborate.run environment = (.ok expr, final) ↔
      Elaborates environment tree expr ∧ final = environment.issueAll tree.binders :=
  tree.runsAsDerived

theorem run_elaborateAll_eq_ok_iff {trees : List Tree} {environment final : Environment}
    {exprs : List Expr} :
    (elaborateAll trees).run environment = (.ok exprs, final) ↔
      ElaboratesAll environment trees exprs ∧ final = environment.issueAll (bindersAll trees) :=
  run_elaborateAll_eq_ok_iff_of fun tree _ => tree.runsAsDerived

end Tree

/-! ## Trees at the root -/

namespace Environment

/-- The environment after a whole tree: its binders are issued, and the names of its
bindings are in sight. -/
def withBindings (names : List Name) (refs : List Ref) (environment : Environment) :
    Environment :=
  { environment.issueAll names with globals := refs.reverse ++ environment.globals }

theorem withGlobal_withBindings (environment : Environment) (before after : List Name)
    (refs : List Ref) (name : Name) (ty : Ty) :
    ((environment.issueAll before).withGlobal name ty).withBindings after refs =
      environment.withBindings (before ++ name :: after)
        ((environment.issueAll before).globalRef name ty :: refs) := by
  simp [withBindings, withGlobal, issueAll, issue]

end Environment

/-- `ElaboratesProgram environment tree program` says that `tree`, at the root, becomes
`program`. -/
inductive ElaboratesProgram : Environment → Tree → Program → Prop where
  | entry {environment tree expr} :
      tree.splitLets = ([], tree) →
      Elaborates environment tree expr →
      ElaboratesProgram environment tree ⟨[], expr⟩
  | letIn {environment middle name tree rest value bindings entry} :
      Elaborates environment tree value →
      middle = environment.issueAll tree.binders →
      ElaboratesProgram (middle.withGlobal name value.ty) rest ⟨bindings, entry⟩ →
      ElaboratesProgram environment (.letIn name tree rest)
        ⟨⟨middle.globalRef name value.ty, value⟩ :: bindings, entry⟩

namespace Tree

open Environment

theorem elaborateProgram_letIn (name : Name) (value body : Tree) :
    (letIn name value body).elaborateProgram = (do
      let binding ← elaborateLet name value
      let program ← body.elaborateProgram
      return ⟨binding :: program.bindings, program.entry⟩) := by
  simp only [elaborateProgram, splitLets, PassT.traverse, bind_assoc, pure_bind]
  rfl

theorem elaborateProgram_of_splitLets {tree : Tree} (single : tree.splitLets = ([], tree)) :
    tree.elaborateProgram = (do
      let entry ← tree.elaborate
      return ⟨[], entry⟩) := by
  simp only [elaborateProgram, single, PassT.traverse, pure_bind]

theorem run_elaborateLet_eq_ok_iff {name : Name} {value : Tree} {environment final : Environment}
    {binding : Binding} :
    (elaborateLet name value).run environment = (.ok binding, final) ↔
      ∃ expr middle, Elaborates environment value expr ∧
        middle = environment.issueAll value.binders ∧
        binding = ⟨middle.globalRef name expr.ty, expr⟩ ∧
        final = middle.withGlobal name expr.ty := by
  simp only [elaborateLet, Pass.run_bind_eq_ok, run_elaborate_eq_ok_iff, run_bindGlobal]
  constructor
  · intro run
    obtain ⟨expr, middle, ⟨derived, rfl⟩, ref, last, bound, ends⟩ := run
    cases bound
    cases ends
    exact ⟨expr, _, derived, rfl, rfl, rfl⟩
  · intro derivation
    obtain ⟨expr, middle, derived, rfl, rfl, rfl⟩ := derivation
    exact ⟨expr, _, ⟨derived, rfl⟩, _, _, rfl, rfl⟩

/-- A tree at the root is elaborated exactly where there is a derivation. Frames stay as
they are, and the bindings come into sight. -/
theorem run_elaborateProgram_eq_ok_iff {tree : Tree} {environment final : Environment}
    {program : Program} :
    tree.elaborateProgram.run environment = (.ok program, final) ↔
      ElaboratesProgram environment tree program ∧
        final = environment.withBindings tree.binders (program.bindings.map (·.name)) := by
  induction tree using root_induction generalizing environment final program with
  | entry tree single =>
      simp only [elaborateProgram_of_splitLets single, Pass.run_bind_eq_ok,
        run_elaborate_eq_ok_iff]
      constructor
      · intro run
        obtain ⟨expr, middle, ⟨derived, rfl⟩, ends⟩ := run
        cases ends
        exact ⟨.entry single derived, rfl⟩
      · intro derivation
        obtain ⟨derived, rfl⟩ := derivation
        cases derived with
        | entry _ derived => exact ⟨_, _, ⟨derived, rfl⟩, rfl⟩
        | letIn => cases single
  | letIn name value body bodyIH =>
      simp only [elaborateProgram_letIn, Pass.run_bind_eq_ok, run_elaborateLet_eq_ok_iff, bodyIH]
      constructor
      · intro run
        obtain ⟨binding, _, ⟨expr, middle, valueDerived, rfl, rfl, rfl⟩, rest, last,
          ⟨restDerived, rfl⟩, ends⟩ := run
        cases ends
        exact ⟨.letIn valueDerived rfl restDerived, withGlobal_withBindings ..⟩
      · intro derivation
        obtain ⟨derived, rfl⟩ := derivation
        cases derived with
        | entry split => cases split
        | @letIn _ middle _ _ _ expr bindings entry valueDerived same restDerived =>
            subst same
            refine ⟨_, _, ⟨expr, _, valueDerived, rfl, rfl, rfl⟩, ⟨bindings, entry⟩, _,
              ⟨restDerived, rfl⟩, ?_⟩
            rw [withGlobal_withBindings]
            rfl

theorem toProgram_eq_ok_iff {tree : Tree} {policy : Policy} {program : Program} :
    tree.toProgram policy = .ok program ↔ ElaboratesProgram (.empty policy) tree program := by
  rw [toProgram, Pass.evaluate_eq]
  constructor
  · intro outcome
    exact (run_elaborateProgram_eq_ok_iff.mp (Prod.ext outcome rfl)).1
  · intro derived
    rw [run_elaborateProgram_eq_ok_iff.mpr ⟨derived, rfl⟩]

end Tree

end SimplyTyped
