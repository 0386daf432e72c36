import SimplyTyped.Core.FreeRefs.Session
import SimplyTyped.Proofs.Core.FreeRefs

/-!
# Sessions of the analysis

Between its steps the analysis keeps no trace of the parameters that it met. Each step adds
the free uses of what it shows, less those that are bound at the top level by then.
-/

set_option autoImplicit false

namespace SimplyTyped

namespace FreeRefs

/-! ## What a step does to findings -/

theorem useAll_state (uses : List Ref) (findings : Findings) :
    useAll uses findings.state = (findings.addUses uses).state := by
  refine ext_of_free (by simp [Findings.state, Findings.addUses])
    (by simp [Findings.state]) fun ref => ?_
  rw [mem_free_useAll]
  simp [Findings.state, Findings.addUses, Binds]

theorem visitExpr_state (expr : Expr) (findings : Findings) :
    visitor.visitExpr expr findings.state = (findings.addUses expr.freeUses).state := by
  rw [visitExpr_eq_useAll, useAll_state]

theorem visitLambda_state (params : List Ref) (body : Expr) (findings : Findings) :
    visitor.visitLambda params body findings.state =
      (findings.addUses (body.freeUses.filter (· ∉ params))).state := by
  rw [visitLambda_eq, visitExpr_eq_useAll, useAll_filter, useAll_state]

theorem visitBinding_state (binding : Binding) (findings : Findings) :
    visitor.visitBinding binding findings.state = (findings.addBinding binding).state := by
  rw [visitBinding_eq, useAll_state]
  rfl

theorem visitProgram_state (program : Program) (findings : Findings) :
    visitor.visitProgram program findings.state = (findings.addProgram program).state := by
  obtain ⟨bindings, entry⟩ := program
  induction bindings generalizing findings with
  | nil => exact visitExpr_state entry findings
  | cons binding bindings ih =>
      have walked : visitor.visitProgram ⟨binding :: bindings, entry⟩ findings.state =
          visitor.visitProgram ⟨bindings, entry⟩
            (visitor.visitBinding binding findings.state) := rfl
      rw [walked, visitBinding_state, ih]
      rfl

/-- The pass over a program and the visit of it are the same walk. -/
theorem run_pass_eq_visitProgram (program : Program) (state : FreeRefs) :
    (pass program).run state = (.ok (), visitor.visitProgram program state) := by
  obtain ⟨bindings, entry⟩ := program
  induction bindings generalizing state with
  | nil => rfl
  | cons binding bindings ih =>
      rw [pass_cons, Pass.run_bind, Pass.run_modify]
      exact ih (visitor.visitBinding binding state)

theorem Step.run_pass (step : Step) (findings : Findings) :
    step.pass.run findings.state = (.ok (), (findings.add step).state) := by
  cases step with
  | program shown =>
      rw [Step.pass, run_pass_eq_visitProgram, visitProgram_state]
      rfl
  | visitProgram shown =>
      rw [Step.pass, Pass.run_modify, visitProgram_state]
      rfl
  | visitBinding binding =>
      rw [Step.pass, Pass.run_modify, visitBinding_state]
      rfl
  | visitExpr expr =>
      rw [Step.pass, Pass.run_modify, visitExpr_state]
      rfl
  | visitLambda params body =>
      rw [Step.pass, Pass.run_modify, visitLambda_state]
      rfl
  | use ref =>
      have used : FreeRefs.use ref findings.state = useAll [ref] findings.state := rfl
      rw [Step.pass, Pass.run_modify, used, useAll_state]
      rfl

/-! ## Sessions -/

theorem session_state (steps : List Step) (findings : Findings) :
    Pass.session (steps.map Step.pass) findings.state =
      (findings.along steps).map fun findings => (.ok (), findings.state) := by
  induction steps generalizing findings with
  | nil => rfl
  | cons step steps ih =>
      rw [List.map_cons, Pass.session, Step.run_pass]
      exact congrArg _ (ih (findings.add step))

end FreeRefs

theorem Expr.freeRefs_eq (expr : Expr) : expr.freeRefs = .ofList expr.freeUses := by
  have fresh : (.empty : FreeRefs) = FreeRefs.Findings.empty.state := rfl
  rw [freeRefs, fresh, FreeRefs.visitExpr_state]
  refine SortedSet.ext fun ref => ?_
  simp [FreeRefs.Findings.state, FreeRefs.Findings.addUses, FreeRefs.Findings.empty]

/-- In a session no step fails, and each leaves what its free uses say, with no parameter
bound: what was found free before stays so, and what a step uses counts unless it is a
parameter around its use or a global that was bound until then. By itself, a program or an
expression has its free uses for free references. -/
theorem FreeRefs.session_findings (steps : List FreeRefs.Step) :
    Pass.session (steps.map FreeRefs.Step.pass) .empty =
        (Findings.empty.along steps).map (fun findings => (.ok (), findings.state)) ∧
      (∀ program : Program, program.freeRefs = .ok (.ofList program.freeUses)) ∧
      ∀ expr : Expr, expr.freeRefs = .ofList expr.freeUses :=
  ⟨session_state steps .empty, Program.freeRefs_eq, Expr.freeRefs_eq⟩

end SimplyTyped
