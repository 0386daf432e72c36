import Mathlib.Data.List.Basic
import Mathlib.Data.List.Count
import Mathlib.Logic.Equiv.Basic
import SimplyTyped.Elaboration.Basic
import SimplyTyped.Error.Code
import SimplyTyped.Proofs.Core.FreeRefs
import SimplyTyped.Proofs.Elaboration.Derivation
import SimplyTyped.Renaming

/-!
# Renaming and elaboration

Names are nothing but keys: they are counted, looked up and told apart, and no more. So a map
of names that keeps different names apart commutes with all that elaboration does, on whatever
environment it starts and whether or not it succeeds. It commutes with the analysis of free
references as well.
-/

set_option autoImplicit false

namespace SimplyTyped

variable {f : Name → Name}

/-! ## Two runs of a pass -/

/-- An outcome with its value renamed as told, or else its error. -/
def renameOutcome {α : Type} (f : Name → Name) (rename : α → α) : Except Error α → Except Error α
  | .ok value => .ok (rename value)
  | .error error => .error (error.rename f)

/-- Run on a renamed environment, `renamed` ends like `pass` on the environment itself, with
everything renamed that comes of it. -/
def Equivariant {α : Type} (f : Name → Name) (rename : α → α) (pass renamed : Pass Environment α) :
    Prop :=
  ∀ environment, renamed.run (environment.rename f) =
    (renameOutcome f rename (pass.run environment).1, (pass.run environment).2.rename f)

namespace Equivariant

variable {α β : Type} {rename : α → α} {renameNext : β → β}

theorem pure (value : α) : Equivariant f rename (Pure.pure value) (Pure.pure (rename value)) :=
  fun _ => rfl

theorem throw (error : Error) :
    Equivariant f rename (throwThe Error error) (throwThe Error (error.rename f)) :=
  fun _ => rfl

theorem lift {outcome renamed : Except Error α} (same : renamed = renameOutcome f rename outcome) :
    Equivariant f rename (PassT.lift outcome) (PassT.lift renamed) :=
  fun _ => congrArg (·, _) same

theorem modify {change : Environment → Environment}
    (commutes : ∀ environment, change (environment.rename f) = (change environment).rename f) :
    Equivariant f id (PassT.modify change) (PassT.modify change) :=
  fun environment => congrArg (Prod.mk (Except.ok ())) (commutes environment)

theorem bind {pass renamed : Pass Environment α} {next renamedNext : α → Pass Environment β}
    (first : Equivariant f rename pass renamed)
    (second : ∀ value, Equivariant f renameNext (next value) (renamedNext (rename value))) :
    Equivariant f renameNext (pass >>= next) (renamed >>= renamedNext) := by
  intro environment
  rw [Pass.run_bind, Pass.run_bind, first environment]
  rcases pass.run environment with ⟨_ | value, middle⟩
  · rfl
  · exact second value middle

end Equivariant

/-! ## The environment -/

namespace Environment

theorem nextIndex_rename (injective : Function.Injective f) (environment : Environment)
    (name : Name) : (environment.rename f).nextIndex (f name) = environment.nextIndex name := by
  rw [nextIndex, rename, List.count_map_of_injective _ f injective]
  rfl

theorem visible_rename (environment : Environment) :
    (environment.rename f).visible = environment.visible.map (Ref.rename f) := by
  simp [visible, rename, List.map_flatten]

theorem resolve?_rename (injective : Function.Injective f) (environment : Environment)
    (name : Name) : (environment.rename f).resolve? (f name) =
      (environment.resolve? name).map (Ref.rename f) := by
  rw [resolve?, visible_rename, List.find?_map]
  simp only [resolve?, Function.comp_def, Ref.rename, injective.eq_iff]

theorem lookup_rename (injective : Function.Injective f) (environment : Environment)
    (name : Name) : (environment.rename f).lookup (f name) =
      renameOutcome f (Ref.rename f) (environment.lookup name) := by
  have policy : (environment.rename f).policy = environment.policy := rfl
  rw [lookup, lookup, resolve?_rename injective, policy]
  cases environment.resolve? name with
  | some ref => rfl
  | none => cases environment.policy <;> rfl

theorem equivariant_bindGlobal (injective : Function.Injective f) (name : Name) (ty : Ty) :
    Equivariant f (Ref.rename f) (bindGlobal name ty) (bindGlobal (f name) ty) := by
  intro environment
  simp only [bindGlobal, Pass.run_step, nextIndex_rename injective]
  rfl

theorem equivariant_bindParam (injective : Function.Injective f) (name : Name) (ty : Ty) :
    Equivariant f (Ref.rename f) (bindParam name ty) (bindParam (f name) ty) := by
  intro environment
  simp only [bindParam, Pass.run_step, nextIndex_rename injective]
  obtain ⟨policy, issued, _ | ⟨frame, frames⟩, globals⟩ := environment <;> rfl

theorem equivariant_bindParams (injective : Function.Injective f) (params : List (Name × Ty)) :
    Equivariant f (List.map (Ref.rename f)) (bindParams params)
      (bindParams (params.map (Prod.map f id))) := by
  induction params with
  | nil => exact .pure []
  | cons param params ih =>
      exact (equivariant_bindParam injective param.1 param.2).bind fun ref =>
        ih.bind fun refs => .pure (ref :: refs)

theorem enter_rename (environment : Environment) :
    (environment.rename f).enter = environment.enter.rename f := rfl

theorem leave_rename (environment : Environment) :
    (environment.rename f).leave = environment.leave.rename f := by
  simp [leave, rename]

end Environment

/-! ## Checks -/

namespace Param

theorem annotations_rename (injective : Function.Injective f) (seen : List Name)
    (params : List Param) : annotations (seen.map f) (params.map (rename f)) =
      ((annotations seen params).map (List.map (Prod.map f id))).mapError (Malformed.rename f) := by
  induction params generalizing seen with
  | nil => rfl
  | cons param params ih =>
      obtain ⟨name, annotation⟩ := param
      -- a renamed parameter is a duplicate only where the parameter itself is
      have member : f name ∈ seen.map f ↔ name ∈ seen := List.mem_map_of_injective injective
      have rest := ih (name :: seen)
      rw [List.map_cons] at rest
      simp only [List.map_cons, rename, annotations, member, rest]
      split
      · rfl
      · cases annotation with
        | none => rfl
        | some ty =>
            by_cases known : ty.Known
            · simp only [known, if_true]
              cases annotations (name :: seen) params <;> rfl
            · simp only [known, if_false]
              rfl

theorem checkAll_rename (injective : Function.Injective f) (params : List Param) :
    checkAll (params.map (rename f)) =
      renameOutcome f (List.map (Prod.map f id)) (checkAll params) := by
  have annotated := annotations_rename injective [] params
  rw [List.map_nil] at annotated
  rw [checkAll, checkAll, List.isEmpty_map, annotated]
  split
  · rfl
  · cases annotations [] params <;> rfl

end Param

namespace Expr

theorem ty_rename (expr : Expr) : (expr.rename f).ty = expr.ty := by
  cases expr <;> rfl

theorem map_ty_renameAll (exprs : List Expr) : (renameAll f exprs).map ty = exprs.map ty := by
  rw [renameAll_eq_map, List.map_map]
  exact List.map_congr_left fun expr _ => expr.ty_rename

theorem abstract_rename (params : List Ref) (body : Expr) :
    abstract (params.map (Ref.rename f)) (body.rename f) = (abstract params body).rename f := by
  have same : (params.map (Ref.rename f)).map (·.ty) = params.map (·.ty) := by
    rw [List.map_map]
    rfl
  rw [abstract, same, ty_rename]
  rfl

theorem applied_rename (callee : Expr) (arguments : List Expr) :
    (callee.rename f).applied (renameAll f arguments) =
      renameOutcome f (rename f) (callee.applied arguments) := by
  simp only [applied, ty_rename, map_ty_renameAll]
  cases callee.ty.applyDeferred (arguments.map ty) with
  | ok ty => rfl
  | error refusal => cases refusal <;> rfl

theorem letApplied_rename (name : Name) (param : Ref) (value body : Expr) :
    letApplied (f name) (param.rename f) (value.rename f) (body.rename f) =
      renameOutcome f (rename f) (letApplied name param value body) := by
  have function : abstract [param.rename f] (body.rename f) = (abstract [param] body).rename f :=
    abstract_rename [param] body
  simp only [letApplied, function, ty_rename]
  cases (abstract [param] body).ty.applyDeferred [value.ty] <;> rfl

end Expr

/-! ## Elaboration -/

namespace Tree

open Environment

mutual

theorem equivariant_elaborate (injective : Function.Injective f) (tree : Tree) :
    Equivariant f (Expr.rename f) tree.elaborate (tree.rename f).elaborate := by
  cases tree with
  | var name =>
      have resolved : Equivariant f (Ref.rename f)
          (PassT.step fun environment => (environment.lookup name, environment))
          (PassT.step fun environment => (environment.lookup (f name), environment)) :=
        fun environment => congrArg (·, _) (lookup_rename injective environment name)
      rw [rename, elaborate, elaborate]
      exact resolved.bind fun ref => .pure (Expr.var ref)
  | int value => exact .pure (Expr.int value)
  | bool value => exact .pure (Expr.bool value)
  | app callee arguments =>
      rw [rename, elaborate, elaborate]
      cases arguments with
      | nil => exact .throw (.malformed .emptyApplication)
      | cons argument arguments =>
          exact (equivariant_elaborate injective callee).bind fun callee =>
            (equivariant_elaborateAll injective (argument :: arguments)).bind fun arguments =>
              .lift (callee.applied_rename arguments)
  | lambda params body =>
      rw [rename, elaborate, elaborate]
      refine (Equivariant.lift (Param.checkAll_rename injective params)).bind fun annotations => ?_
      refine (Equivariant.modify enter_rename).bind fun _ => ?_
      refine (equivariant_bindParams injective annotations).bind fun params => ?_
      refine (equivariant_elaborate injective body).bind fun body => ?_
      refine (Equivariant.modify leave_rename).bind fun _ => ?_
      rw [Expr.abstract_rename]
      exact .pure (Expr.abstract params body)
  | letIn name value body =>
      rw [rename, elaborate, elaborate]
      refine (equivariant_elaborate injective value).bind fun value => ?_
      refine (Equivariant.modify enter_rename).bind fun _ => ?_
      rw [Expr.ty_rename]
      refine (equivariant_bindParam injective name value.ty).bind fun param => ?_
      refine (equivariant_elaborate injective body).bind fun body => ?_
      refine (Equivariant.modify leave_rename).bind fun _ => ?_
      exact .lift (Expr.letApplied_rename name param value body)

theorem equivariant_elaborateAll (injective : Function.Injective f) (trees : List Tree) :
    Equivariant f (Expr.renameAll f) (elaborateAll trees) (elaborateAll (renameAll f trees)) := by
  cases trees with
  | nil => exact .pure []
  | cons tree trees =>
      rw [renameAll, elaborateAll, elaborateAll]
      exact (equivariant_elaborate injective tree).bind fun expr =>
        (equivariant_elaborateAll injective trees).bind fun exprs => .pure (expr :: exprs)

end

theorem equivariant_elaborateLet (injective : Function.Injective f) (name : Name) (value : Tree) :
    Equivariant f (fun binding => ⟨binding.name.rename f, binding.value.rename f⟩)
      (elaborateLet name value) (elaborateLet (f name) (value.rename f)) := by
  refine (equivariant_elaborate injective value).bind fun value => ?_
  rw [Expr.ty_rename]
  exact (equivariant_bindGlobal injective name value.ty).bind fun name =>
    .pure (Binding.mk name value)

theorem splitLets_rename {tree : Tree} (single : tree.splitLets = ([], tree)) :
    (tree.rename f).splitLets = ([], tree.rename f) := by
  cases tree with
  | letIn => cases single
  | _ => rfl

theorem equivariant_elaborateProgram (injective : Function.Injective f) (tree : Tree) :
    Equivariant f (Program.rename f) tree.elaborateProgram (tree.rename f).elaborateProgram := by
  induction tree using root_induction with
  | entry tree single =>
      rw [elaborateProgram_of_splitLets single,
        elaborateProgram_of_splitLets (splitLets_rename single)]
      exact (equivariant_elaborate injective tree).bind fun entry =>
        .pure (Program.mk [] entry)
  | letIn name value body bodyIH =>
      rw [rename, elaborateProgram_letIn, elaborateProgram_letIn]
      exact (equivariant_elaborateLet injective name value).bind fun binding =>
        bodyIH.bind fun program => .pure (Program.mk (binding :: program.bindings) program.entry)

end Tree

/-! ## Free references -/

theorem Ref.rename_injective (injective : Function.Injective f) :
    Function.Injective (Ref.rename f) := by
  intro left right same
  obtain ⟨name, index, ty, scope⟩ := left
  obtain ⟨names, rfl, rfl, rfl⟩ := Ref.mk.inj same
  cases injective names
  rfl

namespace Expr

mutual

theorem freeUses_rename (injective : Function.Injective f) (expr : Expr) :
    (expr.rename f).freeUses = expr.freeUses.map (Ref.rename f) := by
  cases expr with
  | var | int | bool => rfl
  | app ty callee arguments =>
      rw [rename, freeUses, freeUses, freeUses_rename injective callee,
        freeUsesAll_rename injective arguments, List.map_append]
  | lambda ty params body =>
      rw [rename, freeUses, freeUses, freeUses_rename injective body, List.filter_map]
      simp only [Function.comp_def, List.mem_map_of_injective (Ref.rename_injective injective)]

theorem freeUsesAll_rename (injective : Function.Injective f) (exprs : List Expr) :
    freeUsesAll (renameAll f exprs) = (freeUsesAll exprs).map (Ref.rename f) := by
  cases exprs with
  | nil => rfl
  | cons expr exprs =>
      rw [renameAll, freeUsesAll, freeUsesAll, freeUses_rename injective expr,
        freeUsesAll_rename injective exprs, List.map_append]

end

end Expr

namespace Program

theorem freeUses_rename (injective : Function.Injective f) (program : Program) :
    (program.rename f).freeUses = program.freeUses.map (Ref.rename f) := by
  obtain ⟨bindings, entry⟩ := program
  induction bindings with
  | nil => exact entry.freeUses_rename injective
  | cons binding bindings ih =>
      simp only [freeUses, rename] at ih ⊢
      simp only [List.map_cons, freeUsesFrom, binding.value.freeUses_rename injective, ih,
        List.map_append, List.filter_map, Function.comp_def,
        (Ref.rename_injective injective).ne_iff]

theorem freeRefs_rename (injective : Function.Injective f) (program : Program) :
    (program.rename f).freeRefs = program.freeRefs.map (·.image (Ref.rename f)) := by
  have image : (SortedSet.ofList program.freeUses).image (Ref.rename f) =
      .ofList (program.freeUses.map (Ref.rename f)) := by
    refine SortedSet.ext fun ref => ?_
    simp [SortedSet.image, SortedSet.mem_toList]
  rw [freeRefs_eq, freeRefs_eq, freeUses_rename injective, ← image]
  rfl

end Program

/-! ## Programs -/

theorem Error.code_rename (error : Error) : (error.rename f).code = error.code := by
  cases error <;> rfl

/-- Where different names are replaced by different names, the tree becomes the program with
the names replaced in it, and so are its free references. A tree that fails still fails: with
the same kind of error, about what was named before. -/
theorem toProgram_rename (injective : Function.Injective f) (tree : Tree) (policy : Policy) :
    (∀ program, tree.toProgram policy = .ok program →
      (tree.rename f).toProgram policy = .ok (program.rename f) ∧
        ∃ free, program.freeRefs = .ok free ∧
          (program.rename f).freeRefs = .ok (free.image (Ref.rename f))) ∧
    ∀ error, tree.toProgram policy = .error error →
      (tree.rename f).toProgram policy = .error (error.rename f) ∧
        (error.rename f).code = error.code := by
  have renamed : (tree.rename f).toProgram policy =
      renameOutcome f (Program.rename f) (tree.toProgram policy) :=
    congrArg Prod.fst (tree.equivariant_elaborateProgram injective (.empty policy))
  refine ⟨fun program elaborated => ⟨?succeeds, _, program.freeRefs_eq, ?free⟩,
    fun error failed => ⟨?fails, error.code_rename⟩⟩
  case succeeds =>
    rw [renamed, elaborated]
    rfl
  case free =>
    rw [program.freeRefs_rename injective, program.freeRefs_eq]
    rfl
  case fails =>
    rw [renamed, failed]
    rfl

/-- Two names change places that are a free name, a global and a parameter at once. -/
theorem toProgram_rename_swapped :
    let f : Name → Name := Equiv.swap ⟨"x"⟩ ⟨"y"⟩
    let tree : Tree := .letIn ⟨"x"⟩
      (.lambda [⟨⟨"x"⟩, some .int⟩] (.app (.var ⟨"y"⟩) [.var ⟨"x"⟩])) (.var ⟨"x"⟩)
    let faulty : Tree := .letIn ⟨"x"⟩ (.int 1) (.app (.var ⟨"x"⟩) [.int 2])
    Function.Injective f ∧
      (∃ program, tree.toProgram .keep = .ok program ∧
        (tree.rename f).toProgram .keep = .ok (program.rename f) ∧
        (program.rename f).freeRefs = .ok (.ofList [.unresolved ⟨"x"⟩])) ∧
      (tree.rename f).toProgram .reject = .error (.undefined (.unresolved ⟨"x"⟩)) ∧
      (faulty.rename f).toProgram .keep = .error (.mismatch
        ⟨.app .unknown (.var ⟨⟨"y"⟩, 0, .int, .global⟩) [.int 2], .function .int, .int⟩) := by
  intro f tree faulty
  have injective : Function.Injective f := (Equiv.swap _ _).injective
  obtain ⟨renamed, free, found, image⟩ := (toProgram_rename injective tree .keep).1 _ rfl
  have undefined := (toProgram_rename injective tree .reject).2 _ rfl
  have mismatch := (toProgram_rename injective faulty .keep).2 _ rfl
  cases found
  exact ⟨injective, ⟨_, rfl, renamed, image⟩, undefined.1, mismatch.1⟩

end SimplyTyped
