import SimplyTyped.Proofs.Core.FreeRefs
import SimplyTyped.Proofs.Elaboration.FreeNames

/-!
# Keeping and rejecting unresolved names

The same tree is elaborated twice, once with the names kept that have no binder and once
with such names rejected. The runs go the same way, with the same indices and types, up to
the first name that has no binder. There the second run ends. If the first run succeeds,
that name is among the free references of its program.
-/

set_option autoImplicit false

namespace SimplyTyped

/-- A fault of the tree itself, of its form or of its types. -/
def Error.IsFault : Error → Prop
  | .malformed _ | .mismatch _ => True
  | .generic _ | .defect _ | .parse _ | .undefined _ => False

namespace Environment

def rejecting (environment : Environment) : Environment :=
  { environment with policy := .reject }

def missing (environment : Environment) (names : List Name) : List Name :=
  names.filter (environment.resolve? · = none)

section missing

variable (environment : Environment)

theorem missing_append (left right : List Name) :
    environment.missing (left ++ right) = environment.missing left ++ environment.missing right :=
  List.filter_append ..

@[simp] theorem missing_issueAll (names : List Name) :
    (environment.issueAll names).missing = environment.missing := rfl

theorem missing_withParams (annotations : List (Name × Ty)) (names : List Name) :
    (environment.withParams annotations).missing names =
      environment.missing (names.filter (· ∉ annotations.map Prod.fst)) := by
  rw [missing, missing, List.filter_filter]
  refine List.filter_congr fun name _ => ?_
  by_cases member : name ∈ annotations.map Prod.fst
  · obtain ⟨ref, -, -, resolved⟩ := @resolve?_withParams_of_mem environment _ _ member
    simp [resolved, member]
  · rw [resolve?_withParams_of_not_mem member]
    simp [member]

theorem missing_withGlobal (atRoot : environment.frames = []) (bound : Name) (ty : Ty)
    (names : List Name) :
    (environment.withGlobal bound ty).missing names =
      environment.missing (names.filter (· ≠ bound)) := by
  rw [missing, missing, List.filter_filter]
  refine List.filter_congr fun name _ => ?_
  rw [resolve?_withGlobal atRoot]
  by_cases same : bound = name
  · simp [same]
  · simp [same, Ne.symm same]

end missing

theorem paramRefs_rejecting (environment : Environment) (annotations : List (Name × Ty)) :
    environment.rejecting.paramRefs annotations = environment.paramRefs annotations :=
  paramRefs_congr annotations rfl

theorem withParams_rejecting (environment : Environment) (annotations : List (Name × Ty)) :
    environment.rejecting.withParams annotations =
      (environment.withParams annotations).rejecting := by
  rw [withParams, paramRefs_rejecting]
  rfl

end Environment

/-! ## Two runs of a pass -/

/-- `Rejected names kept rejected` compares how a run ends where names are kept and where
they are rejected. `names` are the names without a binder that stand in its way. -/
inductive Rejected {α : Type} (names : List Name) :
    Except Error α × Environment → Except Error α × Environment → Prop where
  | value {value final} :
      names = [] → Rejected names (.ok value, final) (.ok value, final.rejecting)
  | fault {error final} :
      error.IsFault → Rejected names (.error error, final) (.error error, final.rejecting)
  /-- However the run goes on where the name is kept, only a fault can still end it. -/
  | undefined {name kept final} :
      name ∈ names → (∀ error, kept.1 = .error error → error.IsFault) →
      Rejected names kept (.error (.undefined (.unresolved name)), final)

/-- All that rejection changes about a run is that it may end at one of `names`. -/
def RejectsOnly {α : Type} (names : List Name) (pass : Pass Environment α)
    (environment : Environment) : Prop :=
  Rejected names (pass.run environment) (pass.run environment.rejecting)

theorem Rejected.isFault {α : Type} {names : List Name}
    {kept rejected : Except Error α × Environment} (compared : Rejected names kept rejected)
    {error : Error} (failed : kept.1 = .error error) : error.IsFault := by
  cases compared with
  | value => cases failed
  | fault fault =>
      cases failed
      exact fault
  | undefined _ faults => exact faults error failed

namespace RejectsOnly

variable {α β : Type} {pass : Pass Environment α} {next : α → Pass Environment β}
  {environment middle : Environment} {value : α} {names more : List Name}

theorem pure (value : α) (environment : Environment) :
    RejectsOnly [] (Pure.pure value) environment :=
  .value rfl

theorem lift {outcome : Except Error α}
    (faults : ∀ error, outcome = .error error → error.IsFault) (environment : Environment) :
    RejectsOnly [] (PassT.lift outcome) environment := by
  cases outcome with
  | ok value => exact .value rfl
  | error error => exact .fault (faults error rfl)

theorem bind_lift {outcome : Except Error α}
    (faults : ∀ error, outcome = .error error → error.IsFault)
    (second : ∀ value, outcome = .ok value → RejectsOnly names (next value) environment) :
    RejectsOnly names (PassT.lift outcome >>= next) environment := by
  cases outcome with
  | ok value => exact second value rfl
  | error error => exact .fault (faults error rfl)

theorem bind (first : RejectsOnly names pass environment)
    (second : ∀ value middle, pass.run environment = (.ok value, middle) →
      RejectsOnly more (next value) middle) :
    RejectsOnly (names ++ more) (pass >>= next) environment := by
  unfold RejectsOnly at first ⊢
  rw [Pass.run_bind, Pass.run_bind]
  rcases keptRun : pass.run environment with ⟨outcome, middle⟩
  rcases rejectedRun : pass.run environment.rejecting with ⟨rejectedOutcome, last⟩
  rw [keptRun, rejectedRun] at first
  cases first with
  | value none =>
      subst none
      exact second _ middle keptRun
  | fault fault => exact .fault fault
  | undefined member faults =>
      have member := List.mem_append_left more member
      -- only the kept run goes on, and what may end it later is known from `second`
      cases outcome with
      | error error => exact .undefined member fun _ failed => faults _ (by simpa using failed)
      | ok value => exact .undefined member fun _ => (second value middle keptRun).isFault

theorem bind_of_run (keptRun : pass.run environment = (.ok value, middle))
    (rejectedRun : pass.run environment.rejecting = (.ok value, middle.rejecting))
    (second : RejectsOnly names (next value) middle) :
    RejectsOnly names (pass >>= next) environment := by
  unfold RejectsOnly
  rw [Pass.run_bind, Pass.run_bind, keptRun, rejectedRun]
  exact second

theorem bind_nil (first : RejectsOnly names pass environment)
    (second : ∀ value middle, pass.run environment = (.ok value, middle) →
      RejectsOnly [] (next value) middle) :
    RejectsOnly names (pass >>= next) environment := by
  rw [← List.append_nil names]
  exact first.bind second

end RejectsOnly

/-! ## Trees away from the root -/

theorem Param.isFault_of_checkAll {params : List Param} {error : Error}
    (refused : checkAll params = .error error) : error.IsFault := by
  unfold checkAll at refused
  split at refused
  · cases refused
    trivial
  · cases annotated : annotations [] params with
    | ok annotations =>
        rw [annotated] at refused
        cases refused
    | error cause =>
        rw [annotated] at refused
        cases refused
        trivial

theorem Expr.isFault_of_applied {callee : Expr} {arguments : List Expr} {error : Error}
    (refused : callee.applied arguments = .error error) : error.IsFault := by
  unfold applied at refused
  cases outcome : callee.ty.applyDeferred (arguments.map Expr.ty) with
  | ok ty => simp [outcome] at refused
  | error refusal =>
      simp only [outcome] at refused
      cases refused
      trivial

theorem Expr.letApplied_ne_error {name : Name} {param : Ref} {value body : Expr} {error : Error}
    (same : param.ty = value.ty) : letApplied name param value body ≠ .error error := by
  rw [(letApplied_eq_ok_iff same).mpr ⟨_, Ty.applyDeferred_domain _ _, rfl⟩]
  exact nofun

namespace Tree

open Environment

theorem rejectsOnly_var (name : Name) (environment : Environment)
    (keeps : environment.policy = .keep) :
    RejectsOnly (environment.missing [name]) (var name).elaborate environment := by
  unfold RejectsOnly
  cases found : environment.resolve? name with
  | some ref =>
      have kept : (var name).elaborate.run environment = (.ok (.var ref), environment) := by
        simp [elaborate, lookup, found]
      have rejected : (var name).elaborate.run environment.rejecting =
          (.ok (.var ref), environment.rejecting) := by
        have found : environment.rejecting.resolve? name = some ref := found
        simp [elaborate, lookup, found]
      rw [kept, rejected]
      exact .value (by simp [missing, found])
  | none =>
      have kept : (var name).elaborate.run environment =
          (.ok (.var (.unresolved name)), environment) := by
        simp [elaborate, lookup, found, keeps]
      have rejected : (var name).elaborate.run environment.rejecting =
          (.error (.undefined (.unresolved name)), environment.rejecting) := by
        have found : environment.rejecting.resolve? name = none := found
        have rejects : environment.rejecting.policy = .reject := rfl
        simp [elaborate, lookup, found, rejects]
      rw [kept, rejected]
      exact .undefined (by simp [missing, found]) fun _ failed => by cases failed

mutual

theorem rejectsOnly (tree : Tree) (environment : Environment)
    (keeps : environment.policy = .keep) :
    RejectsOnly (environment.missing tree.freeNames) tree.elaborate environment := by
  cases tree with
  | var name => exact rejectsOnly_var name environment keeps
  | int value => exact .pure _ environment
  | bool value => exact .pure _ environment
  | app callee arguments =>
      rw [elaborate]
      split
      · exact .fault trivial
      · rw [freeNames, missing_append]
        refine (callee.rejectsOnly environment keeps).bind fun function middle run => ?_
        obtain ⟨-, rfl⟩ := run_elaborate_eq_ok_iff.mp run
        refine (rejectsOnlyAll arguments (environment.issueAll _) keeps).bind_nil ?_
        intro values last _
        exact .lift (fun _ => Expr.isFault_of_applied) last
  | lambda params body =>
      rw [elaborate]
      refine .bind_lift (fun _ => Param.isFault_of_checkAll) fun annotations accepted => ?_
      have names : environment.missing (lambda params body).freeNames =
          (environment.withParams annotations).missing body.freeNames := by
        rw [missing_withParams, freeNames, Param.checkAll_map_name accepted]
      rw [names]
      refine .bind_of_run rfl rfl (.bind_of_run (run_bindParams_enter ..) ?_ ?_)
      · rw [← withParams_rejecting, ← paramRefs_rejecting]
        exact run_bindParams_enter environment.rejecting annotations
      · refine (body.rejectsOnly (environment.withParams annotations) keeps).bind_nil ?_
        intro expr last _
        exact .bind_of_run rfl rfl (.pure _ _)
  | letIn name value body =>
      rw [elaborate, freeNames, missing_append]
      refine (value.rejectsOnly environment keeps).bind fun bound middle run => ?_
      obtain ⟨-, rfl⟩ := run_elaborate_eq_ok_iff.mp run
      let inner := (environment.issueAll value.binders).withParams [(name, bound.ty)]
      have names : environment.missing (body.freeNames.filter (· ≠ name)) =
          inner.missing body.freeNames := by
        simp [inner, missing_withParams]
      rw [names]
      refine .bind_of_run rfl rfl (.bind_of_run (run_bindParam_enter ..) rfl ?_)
      refine (body.rejectsOnly inner keeps).bind_nil fun expr last _ => ?_
      -- the parameter took over the type of the value, so it does not refuse the value
      refine .bind_of_run rfl rfl (.lift (fun error refused => ?_) _)
      exact absurd refused (Expr.letApplied_ne_error rfl)

theorem rejectsOnlyAll (trees : List Tree) (environment : Environment)
    (keeps : environment.policy = .keep) :
    RejectsOnly (environment.missing (freeNamesAll trees)) (elaborateAll trees) environment := by
  cases trees with
  | nil => exact .pure _ environment
  | cons tree trees =>
      rw [elaborateAll, freeNamesAll, missing_append]
      refine (tree.rejectsOnly environment keeps).bind fun expr middle run => ?_
      obtain ⟨-, rfl⟩ := run_elaborate_eq_ok_iff.mp run
      refine (rejectsOnlyAll trees (environment.issueAll _) keeps).bind_nil ?_
      intro exprs last _
      exact .pure _ last

end

/-! ## Trees at the root -/

theorem rejectsOnly_elaborateLet (name : Name) (value : Tree) (environment : Environment)
    (keeps : environment.policy = .keep) :
    RejectsOnly (environment.missing value.freeNames) (elaborateLet name value) environment := by
  refine (value.rejectsOnly environment keeps).bind_nil fun expr middle _ => ?_
  exact .bind_of_run (run_bindGlobal ..) rfl (.pure _ _)

theorem rejectsOnly_elaborateProgram (tree : Tree) (environment : Environment)
    (keeps : environment.policy = .keep) (atRoot : environment.frames = []) :
    RejectsOnly (environment.missing tree.freeNames) tree.elaborateProgram environment := by
  induction tree using root_induction generalizing environment with
  | entry tree single =>
      rw [elaborateProgram_of_splitLets single]
      exact (tree.rejectsOnly environment keeps).bind_nil fun entry final _ => .pure _ final
  | letIn name value body bodyIH =>
      rw [elaborateProgram_letIn, freeNames, missing_append]
      refine (rejectsOnly_elaborateLet name value environment keeps).bind fun binding middle run => ?_
      obtain ⟨expr, _, -, rfl, -, rfl⟩ := run_elaborateLet_eq_ok_iff.mp run
      let later := (environment.issueAll value.binders).withGlobal name expr.ty
      have names : environment.missing (body.freeNames.filter (· ≠ name)) =
          later.missing body.freeNames := by
        rw [missing_withGlobal (environment.issueAll value.binders) atRoot, missing_issueAll]
      rw [names]
      exact (bodyIH later keeps atRoot).bind_nil fun program final _ => .pure _ final

/-- By itself, a tree either goes the same way under both policies, or is refused for one of
its free names where they are rejected. -/
theorem toProgram_cases (tree : Tree) :
    (∃ program, tree.toProgram .keep = .ok program ∧ tree.toProgram .reject = .ok program ∧
      tree.freeNames = []) ∨
    (∃ error, tree.toProgram .keep = .error error ∧ tree.toProgram .reject = .error error ∧
      error.IsFault) ∨
    ∃ name ∈ tree.freeNames, tree.toProgram .reject = .error (.undefined (.unresolved name)) ∧
      ∀ error, tree.toProgram .keep = .error error → error.IsFault := by
  have free : (empty .keep).missing tree.freeNames = tree.freeNames :=
    List.filter_eq_self.mpr fun _ _ => rfl
  have compared : Rejected tree.freeNames (tree.elaborateProgram.run (.empty .keep))
      (tree.elaborateProgram.run (.empty .reject)) := by
    have compared := tree.rejectsOnly_elaborateProgram (empty .keep) rfl rfl
    rw [free] at compared
    exact compared
  simp only [toProgram, Pass.evaluate_eq]
  generalize tree.elaborateProgram.run (.empty .keep) = kept at compared ⊢
  generalize tree.elaborateProgram.run (.empty .reject) = rejected at compared ⊢
  cases compared with
  | value closed => exact .inl ⟨_, rfl, rfl, closed⟩
  | fault fault => exact .inr (.inl ⟨_, rfl, rfl, fault⟩)
  | undefined member faults => exact .inr (.inr ⟨_, member, rfl, faults⟩)

section toProgram

variable {tree : Tree} {policy : Policy} {program : Program} {error : Error}

theorem toProgram_reject_eq_ok_iff :
    tree.toProgram .reject = .ok program ↔
      tree.toProgram .keep = .ok program ∧ tree.freeNames = [] := by
  rcases tree.toProgram_cases with
    ⟨_, kept, rejected, closed⟩ | ⟨_, kept, rejected, -⟩ | ⟨name, member, rejected, -⟩
  · simp [kept, rejected, closed]
  · simp [kept, rejected]
  · rw [rejected]
    refine ⟨nofun, fun accepted => ?_⟩
    rw [accepted.2] at member
    exact absurd member List.not_mem_nil

theorem toProgram_reject_of_free (kept : tree.toProgram .keep = .ok program)
    (free : tree.freeNames ≠ []) :
    ∃ name ∈ tree.freeNames, tree.toProgram .reject = .error (.undefined (.unresolved name)) := by
  rcases tree.toProgram_cases with
    ⟨_, -, -, closed⟩ | ⟨_, failed, -, -⟩ | ⟨name, member, rejected, -⟩
  · exact absurd closed free
  · cases kept.symm.trans failed
  · exact ⟨name, member, rejected⟩

theorem toProgram_reject_of_keep_error (failed : tree.toProgram .keep = .error error) :
    tree.toProgram .reject = .error error ∨
      ∃ name ∈ tree.freeNames, tree.toProgram .reject = .error (.undefined (.unresolved name)) := by
  rcases tree.toProgram_cases with
    ⟨_, kept, -, -⟩ | ⟨_, kept, rejected, -⟩ | ⟨name, member, rejected, -⟩
  · cases failed.symm.trans kept
  · exact .inl (rejected.trans (kept.symm.trans failed))
  · exact .inr ⟨name, member, rejected⟩

theorem toProgram_keep_of_reject_error (failed : tree.toProgram .reject = .error error)
    (other : ∀ ref, error ≠ .undefined ref) : tree.toProgram .keep = .error error := by
  rcases tree.toProgram_cases with
    ⟨_, -, rejected, -⟩ | ⟨_, kept, rejected, -⟩ | ⟨name, -, rejected, -⟩
  · cases failed.symm.trans rejected
  · exact kept.trans (rejected.symm.trans failed)
  · cases failed.symm.trans rejected
    exact absurd rfl (other _)

theorem isFault_of_toProgram_keep (failed : tree.toProgram .keep = .error error) :
    error.IsFault := by
  rcases tree.toProgram_cases with
    ⟨_, kept, -, -⟩ | ⟨_, kept, -, fault⟩ | ⟨_, -, -, faults⟩
  · cases failed.symm.trans kept
  · cases failed.symm.trans kept
    exact fault
  · exact faults error failed

theorem mem_freeUses_of_toProgram (elaborated : tree.toProgram policy = .ok program) {ref : Ref} :
    ref ∈ program.freeUses ↔ ∃ name ∈ tree.freeNames, .unresolved name = ref := by
  have derived := toProgram_eq_ok_iff.mp elaborated
  rw [derived.mem_freeUses_iff rfl, List.mem_map]
  exact Iff.rfl

theorem freeUses_eq_nil_iff (elaborated : tree.toProgram policy = .ok program) :
    program.freeUses = [] ↔ tree.freeNames = [] := by
  simp only [List.eq_nil_iff_forall_not_mem, mem_freeUses_of_toProgram elaborated]
  constructor
  · intro none name member
    exact none (.unresolved name) ⟨name, member, rfl⟩
  · rintro none _ ⟨name, member, -⟩
    exact none name member

end toProgram

/-- The two policies agree except on unresolved names. Rejection accepts the trees whose
programs have no free reference, with the very same programs, and refuses the others for one
of their free references. It finds every fault that is found where names are kept, unless a
free name comes first, and no other. Where names are kept, none is ever undefined. -/
theorem toProgram_keep_reject (tree : Tree) :
    (∀ program, tree.toProgram .reject = .ok program ↔
      tree.toProgram .keep = .ok program ∧ program.freeRefs = .ok ∅) ∧
    (∀ program, tree.toProgram .keep = .ok program → ∃ free, program.freeRefs = .ok free ∧
      (free ≠ ∅ → ∃ ref ∈ free, tree.toProgram .reject = .error (.undefined ref))) ∧
    (∀ error, tree.toProgram .keep = .error error →
      tree.toProgram .reject = .error error ∨
        ∃ name ∈ tree.freeNames,
          tree.toProgram .reject = .error (.undefined (.unresolved name))) ∧
    (∀ error, tree.toProgram .reject = .error error → (∀ ref, error ≠ .undefined ref) →
      tree.toProgram .keep = .error error) ∧
    ∀ ref, tree.toProgram .keep ≠ .error (.undefined ref) := by
  have closed_iff : ∀ program, tree.toProgram .keep = .ok program →
      (program.freeRefs = .ok ∅ ↔ tree.freeNames = []) := by
    intro program kept
    rw [← freeUses_eq_nil_iff kept, ← SortedSet.ofList_eq_empty_iff, program.freeRefs_eq,
      Except.ok.injEq]
  refine ⟨fun program => ?accepts, fun program kept => ⟨_, program.freeRefs_eq, fun used => ?refuses⟩,
    fun error => toProgram_reject_of_keep_error, fun error => toProgram_keep_of_reject_error,
    fun ref failed => isFault_of_toProgram_keep failed⟩
  case accepts =>
    rw [toProgram_reject_eq_ok_iff]
    exact and_congr_right fun kept => (closed_iff program kept).symm
  case refuses =>
    have notClosed : tree.freeNames ≠ [] := by
      rwa [Ne, ← freeUses_eq_nil_iff kept, ← SortedSet.ofList_eq_empty_iff]
    obtain ⟨name, member, rejected⟩ := toProgram_reject_of_free kept notClosed
    refine ⟨.unresolved name, SortedSet.mem_ofList.mpr ?_, rejected⟩
    exact (mem_freeUses_of_toProgram kept).mpr ⟨name, member, rfl⟩

/-- Rejection refuses a program that a deferred application lets through, also where all that
is left unbound is the name that the application is bound to. -/
theorem toProgram_keep_reject_deferred :
    let tree := Tree.letIn ⟨"x"⟩ (.app (.lambda [⟨⟨"y"⟩, some .int⟩] (.var ⟨"x"⟩)) [.var ⟨"x"⟩])
      (.app (.var ⟨"x"⟩) [.bool true])
    ∃ program free, tree.toProgram .keep = .ok program ∧ program.freeRefs = .ok free ∧
      ∃ ref ∈ free, tree.toProgram .reject = .error (.undefined ref) := by
  intro tree
  obtain ⟨program, kept⟩ : ∃ program, tree.toProgram .keep = .ok program := ⟨_, rfl⟩
  obtain ⟨free, analysed, refuses⟩ := (toProgram_keep_reject tree).2.1 program kept
  refine ⟨program, free, kept, analysed, refuses ?_⟩
  rintro rfl
  rw [program.freeRefs_eq, Except.ok.injEq, SortedSet.ofList_eq_empty_iff,
    freeUses_eq_nil_iff kept] at analysed
  exact absurd analysed (by simp [tree, freeNames, freeNamesAll])

end Tree

end SimplyTyped
