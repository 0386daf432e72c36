import SimplyTyped.Elaboration.FailurePoint
import SimplyTyped.Proofs.Elaboration.Policy

/-!
# What elaboration leaves behind

A failure leaves open exactly the frames of the lambdas and `let`s around the point where it
happened, on top of those that were open before, and the globals of the `let`s at the root that
were done by then. After a success only these globals are left. Indices are never given back.
-/

set_option autoImplicit false

namespace SimplyTyped

namespace Environment

/-- `environment.LeavesOpen depth final` says that `final` is `environment` with `depth` more
frames open on top, and perhaps more indices in use. -/
structure LeavesOpen (environment : Environment) (depth : Nat) (final : Environment) : Prop where
  policy : final.policy = environment.policy
  frames : ∃ opened, opened.length = depth ∧ final.frames = opened ++ environment.frames
  globals : final.globals = environment.globals
  issued : environment.issued <:+ final.issued

namespace LeavesOpen

variable {environment final : Environment} {depth : Nat}

theorem refl (environment : Environment) : environment.LeavesOpen 0 environment :=
  ⟨rfl, ⟨[], rfl, rfl⟩, rfl, List.suffix_rfl⟩

theorem of_issueAll {names : List Name}
    (leaves : (environment.issueAll names).LeavesOpen depth final) :
    environment.LeavesOpen depth final :=
  ⟨leaves.policy, leaves.frames, leaves.globals,
    (List.suffix_append names.reverse environment.issued).trans leaves.issued⟩

/-- The frame of the parameters is open as well, below those of the body. -/
theorem of_withParams {annotations : List (Name × Ty)}
    (leaves : (environment.withParams annotations).LeavesOpen depth final) :
    environment.LeavesOpen (depth + 1) final := by
  obtain ⟨policy, ⟨opened, count, frames⟩, globals, issued⟩ := leaves
  refine ⟨policy, ⟨opened ++ [(environment.paramRefs annotations).reverse], ?_, ?_⟩, globals, ?_⟩
  · simp [count]
  · simp [frames]
  · exact (List.suffix_append _ environment.issued).trans issued

theorem count_le (leaves : environment.LeavesOpen depth final) (name : Name) :
    environment.issued.count name ≤ final.issued.count name :=
  leaves.issued.sublist.count_le name

end LeavesOpen

/-- As long as there are indices left, the next one counts those in use. -/
theorem toNat_nextIndex {environment : Environment} {name : Name}
    (few : environment.issued.count name < UInt32.size) :
    (environment.nextIndex name).toNat = environment.issued.count name :=
  UInt32.toNat_ofNat_of_lt' few

end Environment

namespace Tree

open Environment

/-! ## Failing runs

One equivalence for each kind of tree that has parts: a run fails in the first part that fails,
or in the check that comes after them. -/

section run

variable {environment final : Environment} {error : Error}

theorem run_elaborate_var_eq_error_iff {name : Name} :
    (var name).elaborate.run environment = (.error error, final) ↔
      environment.lookup name = .error error ∧ final = environment := by
  simp only [elaborate, Pass.run_bind_eq_error, Pass.run_step, Pass.run_pure]
  simp [eq_comm]

theorem run_elaborate_app_eq_error_iff {callee : Tree} {arguments : List Tree}
    (some : arguments ≠ []) :
    (app callee arguments).elaborate.run environment = (.error error, final) ↔
      callee.elaborate.run environment = (.error error, final) ∨
        ∃ expr middle, callee.elaborate.run environment = (.ok expr, middle) ∧
          ((elaborateAll arguments).run middle = (.error error, final) ∨
            ∃ exprs, (elaborateAll arguments).run middle = (.ok exprs, final) ∧
              expr.applied exprs = .error error) := by
  rw [elaborate, if_neg (by simpa using some)]
  simp only [Pass.run_bind_eq_error, Pass.run_lift, Prod.mk.injEq, exists_eq_right_right]

/-- Neither entering a lambda nor binding its parameters fails. -/
theorem run_elaborate_lambda_eq_error_iff {params : List Param} {body : Tree} :
    (lambda params body).elaborate.run environment = (.error error, final) ↔
      Param.checkAll params = .error error ∧ final = environment ∨
        ∃ annotations, Param.checkAll params = .ok annotations ∧
          body.elaborate.run (environment.withParams annotations) = (.error error, final) := by
  simp only [elaborate, Pass.run_bind_eq_error, Pass.run_lift, Pass.run_modify, Pass.run_pure]
  simp [run_bindParams_enter, and_assoc, eq_comm]

/-- The parameter of a `let` has the type of its value, so the value is never refused. -/
theorem run_elaborate_letIn_eq_error_iff {name : Name} {value body : Tree} :
    (letIn name value body).elaborate.run environment = (.error error, final) ↔
      value.elaborate.run environment = (.error error, final) ∨
        ∃ expr middle, value.elaborate.run environment = (.ok expr, middle) ∧
          body.elaborate.run (middle.withParams [(name, expr.ty)]) = (.error error, final) := by
  have accepts (middle : Environment) (expr inner : Expr) :
      Expr.letApplied name (middle.paramRef name expr.ty) expr inner ≠ .error error :=
    Expr.letApplied_ne_error rfl
  simp only [elaborate, Pass.run_bind_eq_error, Pass.run_lift, Pass.run_modify]
  simp [run_bindParam_enter, accepts, and_assoc]

theorem run_elaborateAll_cons_eq_error_iff {tree : Tree} {trees : List Tree} :
    (elaborateAll (tree :: trees)).run environment = (.error error, final) ↔
      tree.elaborate.run environment = (.error error, final) ∨
        ∃ expr middle, tree.elaborate.run environment = (.ok expr, middle) ∧
          (elaborateAll trees).run middle = (.error error, final) := by
  simp only [elaborateAll, Pass.run_bind_eq_error, Pass.run_pure]
  simp

end run

/-! ## Trees away from the root -/

theorem SomeFailsAt.ne_nil {environment : Environment} {trees depth error}
    (fails : SomeFailsAt environment trees depth error) : trees ≠ [] := by
  cases fails <;> exact List.cons_ne_nil _ _

theorem FailsAt.run_elaborate {environment : Environment} {tree : Tree} {depth : Nat}
    {error : Error} (fails : FailsAt environment tree depth error) :
    ∃ final, tree.elaborate.run environment = (.error error, final) ∧
      environment.LeavesOpen depth final := by
  induction fails using FailsAt.rec
      (motive_2 := fun environment trees depth error _ =>
        ∃ final, (elaborateAll trees).run environment = (.error error, final) ∧
          environment.LeavesOpen depth final) with
  | var refused => exact ⟨_, run_elaborate_var_eq_error_iff.mpr ⟨refused, rfl⟩, .refl _⟩
  | emptyApplication => exact ⟨_, rfl, .refl _⟩
  | callee some _ ih =>
      obtain ⟨final, run, leaves⟩ := ih
      exact ⟨final, (run_elaborate_app_eq_error_iff some).mpr (.inl run), leaves⟩
  | arguments callee fails ih =>
      obtain ⟨-, rfl⟩ := run_elaborate_eq_ok_iff.mp callee
      obtain ⟨final, run, leaves⟩ := ih
      refine ⟨final, ?_, leaves.of_issueAll⟩
      exact (run_elaborate_app_eq_error_iff fails.ne_nil).mpr (.inr ⟨_, _, callee, .inl run⟩)
  | @application environment _ _ callee arguments _ _ _ some calleeRun argumentsRun refused =>
      obtain ⟨-, rfl⟩ := run_elaborate_eq_ok_iff.mp calleeRun
      obtain ⟨-, rfl⟩ := run_elaborateAll_eq_ok_iff.mp argumentsRun
      have leaves := LeavesOpen.refl
        ((environment.issueAll callee.binders).issueAll (bindersAll arguments))
      refine ⟨_, ?_, leaves.of_issueAll.of_issueAll⟩
      exact (run_elaborate_app_eq_error_iff some).mpr
        (.inr ⟨_, _, calleeRun, .inr ⟨_, argumentsRun, refused⟩⟩)
  | params refused =>
      exact ⟨_, run_elaborate_lambda_eq_error_iff.mpr (.inl ⟨refused, rfl⟩), .refl _⟩
  | body accepted bound _ ih =>
      rw [run_bindParams_enter] at bound
      cases bound
      obtain ⟨final, run, leaves⟩ := ih
      refine ⟨final, ?_, leaves.of_withParams⟩
      exact run_elaborate_lambda_eq_error_iff.mpr (.inr ⟨_, accepted, run⟩)
  | letValue _ ih =>
      obtain ⟨final, run, leaves⟩ := ih
      exact ⟨final, run_elaborate_letIn_eq_error_iff.mpr (.inl run), leaves⟩
  | letBody value bound _ ih =>
      obtain ⟨-, rfl⟩ := run_elaborate_eq_ok_iff.mp value
      rw [run_bindParam_enter] at bound
      cases bound
      obtain ⟨final, run, leaves⟩ := ih
      refine ⟨final, ?_, leaves.of_withParams.of_issueAll⟩
      exact run_elaborate_letIn_eq_error_iff.mpr (.inr ⟨_, _, value, run⟩)
  | head _ ih =>
      obtain ⟨final, run, leaves⟩ := ih
      exact ⟨final, run_elaborateAll_cons_eq_error_iff.mpr (.inl run), leaves⟩
  | tail head _ ih =>
      obtain ⟨-, rfl⟩ := run_elaborate_eq_ok_iff.mp head
      obtain ⟨final, run, leaves⟩ := ih
      refine ⟨final, ?_, leaves.of_issueAll⟩
      exact run_elaborateAll_cons_eq_error_iff.mpr (.inr ⟨_, _, head, run⟩)

mutual

theorem failsAt_of_run_elaborate {tree : Tree} {environment final : Environment} {error : Error}
    (run : tree.elaborate.run environment = (.error error, final)) :
    ∃ depth, FailsAt environment tree depth error := by
  cases tree with
  | var name => exact ⟨0, .var (run_elaborate_var_eq_error_iff.mp run).1⟩
  | int value => cases run
  | bool value => cases run
  | app callee arguments =>
      by_cases none : arguments = []
      · subst none
        cases run
        exact ⟨0, .emptyApplication⟩
      rcases (run_elaborate_app_eq_error_iff none).mp run with
        run | ⟨_, _, calleeRun, run | ⟨_, argumentsRun, refused⟩⟩
      · obtain ⟨depth, fails⟩ := failsAt_of_run_elaborate run
        exact ⟨depth, .callee none fails⟩
      · obtain ⟨depth, fails⟩ := someFailsAt_of_run_elaborateAll run
        exact ⟨depth, .arguments calleeRun fails⟩
      · exact ⟨0, .application none calleeRun argumentsRun refused⟩
  | lambda params body =>
      rcases run_elaborate_lambda_eq_error_iff.mp run with ⟨refused, -⟩ | ⟨_, accepted, run⟩
      · exact ⟨0, .params refused⟩
      · obtain ⟨depth, fails⟩ := failsAt_of_run_elaborate run
        exact ⟨depth + 1, .body accepted (run_bindParams_enter ..) fails⟩
  | letIn name value body =>
      rcases run_elaborate_letIn_eq_error_iff.mp run with run | ⟨_, _, valueRun, run⟩
      · obtain ⟨depth, fails⟩ := failsAt_of_run_elaborate run
        exact ⟨depth, .letValue fails⟩
      · obtain ⟨depth, fails⟩ := failsAt_of_run_elaborate run
        exact ⟨depth + 1, .letBody valueRun (run_bindParam_enter ..) fails⟩

theorem someFailsAt_of_run_elaborateAll {trees : List Tree} {environment final : Environment}
    {error : Error} (run : (elaborateAll trees).run environment = (.error error, final)) :
    ∃ depth, SomeFailsAt environment trees depth error := by
  cases trees with
  | nil => cases run
  | cons tree trees =>
      rcases run_elaborateAll_cons_eq_error_iff.mp run with run | ⟨_, _, headRun, run⟩
      · obtain ⟨depth, fails⟩ := failsAt_of_run_elaborate run
        exact ⟨depth, .head fails⟩
      · obtain ⟨depth, fails⟩ := someFailsAt_of_run_elaborateAll run
        exact ⟨depth, .tail headRun fails⟩

end

/-! ## Trees at the root -/

theorem run_elaborateLet_eq_error_iff {name : Name} {value : Tree}
    {environment final : Environment} {error : Error} :
    (elaborateLet name value).run environment = (.error error, final) ↔
      value.elaborate.run environment = (.error error, final) := by
  simp only [elaborateLet, Pass.run_bind_eq_error, run_bindGlobal, Pass.run_pure]
  constructor
  · rintro (run | ⟨_, _, -, ends | ⟨_, _, -, ends⟩⟩)
    · exact run
    · cases ends
    · cases ends
  · exact .inl

theorem run_elaborateProgram_letIn_eq_error_iff {name : Name} {value body : Tree}
    {environment final : Environment} {error : Error} :
    (letIn name value body).elaborateProgram.run environment = (.error error, final) ↔
      value.elaborate.run environment = (.error error, final) ∨
        ∃ binding next, (elaborateLet name value).run environment = (.ok binding, next) ∧
          body.elaborateProgram.run next = (.error error, final) := by
  simp only [elaborateProgram_letIn, Pass.run_bind_eq_error, run_elaborateLet_eq_error_iff,
    Pass.run_pure]
  simp

theorem run_elaborateProgram_eq_error_iff_of_splitLets {tree : Tree}
    (single : tree.splitLets = ([], tree)) {environment final : Environment} {error : Error} :
    tree.elaborateProgram.run environment = (.error error, final) ↔
      tree.elaborate.run environment = (.error error, final) := by
  simp only [elaborateProgram_of_splitLets single, Pass.run_bind_eq_error, Pass.run_pure]
  simp

/-- What a failure leaves of an environment in which the `let`s before it are bound. -/
theorem FailsAtRoot.run_elaborateProgram {environment : Environment} {tree : Tree}
    {bound : List Ref} {depth : Nat} {error : Error}
    (fails : FailsAtRoot environment tree bound depth error) :
    ∃ final, tree.elaborateProgram.run environment = (.error error, final) ∧
      { environment with globals := bound.reverse ++ environment.globals }.LeavesOpen depth
        final := by
  induction fails with
  | entry single fails =>
      obtain ⟨final, run, leaves⟩ := fails.run_elaborate
      exact ⟨final, (run_elaborateProgram_eq_error_iff_of_splitLets single).mpr run, leaves⟩
  | value fails =>
      obtain ⟨final, run, leaves⟩ := fails.run_elaborate
      exact ⟨final, run_elaborateProgram_letIn_eq_error_iff.mpr (.inl run), leaves⟩
  | @later environment _ _ name value _ expr ref bound depth _ valueRun nameRun _ ih =>
      obtain ⟨valueDerived, rfl⟩ := run_elaborate_eq_ok_iff.mp valueRun
      rw [run_bindGlobal] at nameRun
      cases nameRun
      obtain ⟨final, run, leaves⟩ := ih
      have letRun : (elaborateLet name value).run environment = (.ok ⟨_, expr⟩, _) :=
        run_elaborateLet_eq_ok_iff.mpr ⟨expr, _, valueDerived, rfl, rfl, rfl⟩
      refine ⟨final, run_elaborateProgram_letIn_eq_error_iff.mpr (.inr ⟨_, _, letRun, run⟩), ?_⟩
      refine ⟨leaves.policy, leaves.frames, ?_, ?_⟩
      · simpa using leaves.globals
      · exact (List.suffix_append (name :: value.binders.reverse) _).trans leaves.issued

theorem failsAtRoot_of_run_elaborateProgram {tree : Tree} {environment final : Environment}
    {error : Error} (run : tree.elaborateProgram.run environment = (.error error, final)) :
    ∃ bound depth, FailsAtRoot environment tree bound depth error := by
  induction tree using root_induction generalizing environment with
  | entry tree single =>
      rw [run_elaborateProgram_eq_error_iff_of_splitLets single] at run
      obtain ⟨depth, fails⟩ := failsAt_of_run_elaborate run
      exact ⟨[], depth, .entry single fails⟩
  | letIn name value body bodyIH =>
      rcases run_elaborateProgram_letIn_eq_error_iff.mp run with run | ⟨binding, _, bound, run⟩
      · obtain ⟨depth, fails⟩ := failsAt_of_run_elaborate run
        exact ⟨[], depth, .value fails⟩
      · obtain ⟨expr, middle, derived, rfl, rfl, rfl⟩ := run_elaborateLet_eq_ok_iff.mp bound
        obtain ⟨bound, depth, fails⟩ := bodyIH run
        have valueRun := run_elaborate_eq_ok_iff.mpr ⟨derived, rfl⟩
        exact ⟨_ :: bound, depth, .later valueRun (run_bindGlobal ..) fails⟩

end Tree

theorem ElaboratesProgram.map_name {environment : Environment} {tree : Tree} {program : Program}
    (derived : ElaboratesProgram environment tree program) :
    program.bindings.map (·.name.name) = tree.splitLets.1.map Prod.fst := by
  induction derived with
  | entry single _ => rw [single, List.map_nil, List.map_nil]
  | letIn _ _ _ ih => exact congrArg (_ :: ·) ih

namespace Tree

open Environment

/-- Elaboration changes nothing but the globals and the indices in use, if it succeeds: the
globals of the `let`s at the root are added, and each name uses up one index for each of its
binders. A failure leaves open besides one frame for each lambda and each `let` away from the
root in whose body it happened, and has added only the globals of the `let`s before it. -/
theorem elaborateProgram_effect (tree : Tree) (environment : Environment) :
    (∀ program final, tree.elaborateProgram.run environment = (.ok program, final) →
      final.frames = environment.frames ∧
      final.globals = (program.bindings.map (·.name)).reverse ++ environment.globals ∧
      program.bindings.map (·.name.name) = tree.splitLets.1.map Prod.fst ∧
      ∀ name, final.issued.count name = environment.issued.count name + tree.binders.count name ∧
        (final.issued.count name < UInt32.size →
          (final.nextIndex name).toNat =
            (environment.nextIndex name).toNat + tree.binders.count name)) ∧
    (∀ error final, tree.elaborateProgram.run environment = (.error error, final) →
      ∃ bound depth, FailsAtRoot environment tree bound depth error) ∧
    ∀ bound depth error, FailsAtRoot environment tree bound depth error →
      ∃ final opened, tree.elaborateProgram.run environment = (.error error, final) ∧
        opened.length = depth ∧ final.frames = opened ++ environment.frames ∧
        final.globals = bound.reverse ++ environment.globals ∧
        ∀ name, environment.issued.count name ≤ final.issued.count name ∧
          (final.issued.count name < UInt32.size →
            environment.nextIndex name ≤ final.nextIndex name) := by
  refine ⟨fun program final run => ?success, fun error final run => ?located,
    fun bound depth error fails => ?failure⟩
  case success =>
    obtain ⟨derived, rfl⟩ := run_elaborateProgram_eq_ok_iff.mp run
    refine ⟨rfl, rfl, derived.map_name, fun name => ?_⟩
    have advanced : (environment.withBindings tree.binders
        (program.bindings.map (·.name))).issued.count name =
          environment.issued.count name + tree.binders.count name := by
      simp [withBindings, issueAll, List.count_append, Nat.add_comm]
    refine ⟨advanced, fun few => ?_⟩
    rw [toNat_nextIndex few, advanced, toNat_nextIndex (by omega)]
  case located => exact failsAtRoot_of_run_elaborateProgram run
  case failure =>
    obtain ⟨final, run, leaves⟩ := fails.run_elaborateProgram
    obtain ⟨opened, count, frames⟩ := leaves.frames
    refine ⟨final, opened, run, count, frames, leaves.globals, fun name => ?_⟩
    have grown : environment.issued.count name ≤ final.issued.count name := leaves.count_le name
    refine ⟨grown, fun few => ?_⟩
    rw [UInt32.le_iff_toNat_le, toNat_nextIndex few, toNat_nextIndex (by omega)]
    exact grown

/-- Where a lambda is open and a global is bound already, a tree that binds two globals fails in
the body of a `let` in a lambda, after the first of them; without the fault it succeeds. -/
theorem elaborateProgram_effect_nested :
    let p : Ref := ⟨⟨"p"⟩, 0, .bool, .param⟩
    let g (index : UInt32) : Ref := ⟨⟨"g"⟩, index, .int, .global⟩
    let environment : Environment := ⟨.keep, [⟨"g"⟩, ⟨"p"⟩], [[p]], [g 0]⟩
    let tree (body : Tree) : Tree :=
      .letIn ⟨"g"⟩ (.var ⟨"g"⟩) (.letIn ⟨"h"⟩
        (.lambda [⟨⟨"x"⟩, some .int⟩, ⟨⟨"y"⟩, some .int⟩] (.letIn ⟨"p"⟩ (.var ⟨"g"⟩) body))
        (.var ⟨"h"⟩))
    let error : Error := .mismatch
      ⟨.app .unknown (.var ⟨⟨"p"⟩, 1, .int, .param⟩) [.int 1], .function .int, .int⟩
    let final := ((tree (.var ⟨"p"⟩)).elaborateProgram.run environment).2
    (final.frames = [[p]] ∧ final.globals.map (·.name) = [⟨"h"⟩, ⟨"g"⟩, ⟨"g"⟩] ∧
        (final.nextIndex ⟨"p"⟩).toNat = 1 + 1) ∧
      FailsAtRoot environment (tree (.app (.var ⟨"p"⟩) [.int 1])) [g 1] 2 error := by
  intro p g environment tree error final
  obtain ⟨success, -, -⟩ := elaborateProgram_effect (tree (.var ⟨"p"⟩)) environment
  obtain ⟨frames, globals, -, advanced⟩ := success _ final rfl
  obtain ⟨-, located, failure⟩ :=
    elaborateProgram_effect (tree (.app (.var ⟨"p"⟩) [.int 1])) environment
  obtain ⟨bound, depth, fails⟩ := located error _ rfl
  obtain ⟨_, opened, run, rfl, left, added, -⟩ := failure _ _ _ fails
  cases run
  have two : 2 = opened.length :=
    Nat.add_right_cancel ((congrArg List.length left).trans List.length_append)
  have one : [g 1] = bound.reverse := List.append_cancel_right added
  obtain rfl : bound = [g 1] := List.reverse_eq_iff.mp one.symm
  rw [two]
  exact ⟨⟨frames, congrArg (List.map (·.name)) globals, (advanced ⟨"p"⟩).2 (by decide)⟩, fails⟩

/-! ## One tree after another -/

theorem letsIn_cons (name : Name) (value : Tree) (lets : List (Name × Tree)) (body : Tree) :
    letsIn ((name, value) :: lets) body = letIn name value (letsIn lets body) := rfl

/-- Leading `let`s are elaborated by themselves, with any literal for a body, and the rest
after them. -/
theorem elaborateProgram_letsIn (lets : List (Name × Tree)) (literal : Int64) (body : Tree) :
    (letsIn lets body).elaborateProgram = (do
      let first ← (letsIn lets (int literal)).elaborateProgram
      let rest ← body.elaborateProgram
      return ⟨first.bindings ++ rest.bindings, rest.entry⟩) := by
  induction lets with
  | nil =>
      have single : (int literal).elaborateProgram = pure ⟨[], .int literal⟩ := by
        rw [elaborateProgram_of_splitLets rfl, elaborate, pure_bind]
      simp only [letsIn, List.foldr_nil, single, pure_bind, List.nil_append]
      exact (bind_pure body.elaborateProgram).symm
  | cons binding lets ih =>
      obtain ⟨name, value⟩ := binding
      simp only [letsIn_cons, elaborateProgram_letIn, ih, bind_assoc, pure_bind,
        List.cons_append]

/-- A tree with `let`s in front is elaborated like the `let`s with a literal behind them and
then, where that ends, the tree. So the `let`s at the root can be elaborated one at a time, and
what goes wrong in one of them goes wrong in the same way whatever follows it. -/
theorem run_elaborateProgram_letsIn (lets : List (Name × Tree)) (literal : Int64)
    (environment : Environment) :
    (∀ error final,
      (letsIn lets (int literal)).elaborateProgram.run environment = (.error error, final) →
        ∀ body : Tree,
          (letsIn lets body).elaborateProgram.run environment = (.error error, final)) ∧
    ∀ first middle,
      (letsIn lets (int literal)).elaborateProgram.run environment = (.ok first, middle) →
        ∀ body : Tree,
          (∀ error final, body.elaborateProgram.run middle = (.error error, final) →
            (letsIn lets body).elaborateProgram.run environment = (.error error, final)) ∧
          ∀ rest final, body.elaborateProgram.run middle = (.ok rest, final) →
            (letsIn lets body).elaborateProgram.run environment =
              (.ok ⟨first.bindings ++ rest.bindings, rest.entry⟩, final) := by
  refine ⟨fun error final failed body => ?before, fun first middle elaborated body =>
    ⟨fun error final failed => ?after, fun rest final done => ?both⟩⟩
  all_goals rw [elaborateProgram_letsIn lets literal body]
  case before => exact Pass.run_bind_eq_error.mpr (.inl failed)
  case after =>
    refine Pass.run_bind_eq_error.mpr (.inr ⟨first, middle, elaborated, ?_⟩)
    exact Pass.run_bind_eq_error.mpr (.inl failed)
  case both =>
    refine Pass.run_bind_eq_ok.mpr ⟨first, middle, elaborated, ?_⟩
    exact Pass.run_bind_eq_ok.mpr ⟨rest, final, done, rfl⟩

/-- Two `let`s of one name, a tree that begins with a third, and one that fails. -/
theorem run_elaborateProgram_letsIn_rebound :
    let lets : List (Name × Tree) :=
      [(⟨"x"⟩, .int 1), (⟨"x"⟩, .lambda [⟨⟨"y"⟩, some .int⟩] (.var ⟨"x"⟩))]
    let body : Tree := .letIn ⟨"x"⟩ (.app (.var ⟨"x"⟩) [.int 2]) (.var ⟨"x"⟩)
    let faulty : Tree := .lambda [⟨⟨"x"⟩, some .int⟩] (.app (.var ⟨"x"⟩) [.int 2])
    let run (tree : Tree) (environment : Environment) := tree.elaborateProgram.run environment
    ∃ first rest middle final error failed,
      run (letsIn lets (.int 0)) (.empty .keep) = (.ok first, middle) ∧
      run body middle = (.ok rest, final) ∧
      run (letsIn lets body) (.empty .keep) =
        (.ok ⟨first.bindings ++ rest.bindings, rest.entry⟩, final) ∧
      run faulty middle = (.error error, failed) ∧
      run (letsIn lets faulty) (.empty .keep) = (.error error, failed) ∧
      run (letsIn (lets ++ [(⟨"z"⟩, faulty)]) body) (.empty .keep) = (.error error, failed) := by
  intro lets body faulty run
  obtain ⟨-, elaborated⟩ := run_elaborateProgram_letsIn lets 0 (.empty .keep)
  obtain ⟨-, together⟩ := elaborated _ _ rfl body
  obtain ⟨apart, -⟩ := elaborated _ _ rfl faulty
  obtain ⟨before, -⟩ :=
    run_elaborateProgram_letsIn (lets ++ [(⟨"z"⟩, faulty)]) 0 (.empty .keep)
  exact ⟨_, _, _, _, _, _, rfl, rfl, together _ _ rfl, rfl, apart _ _ rfl, before _ _ rfl body⟩

end Tree

end SimplyTyped
