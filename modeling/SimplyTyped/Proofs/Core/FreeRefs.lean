import SimplyTyped.Core.FreeRefs
import SimplyTyped.Core.Occurrences
import SimplyTyped.Pass.Lemmas

/-!
# What the analysis of free references finds

The analysis keeps what is bound in its state and walks a program once. On every
program and from every state it finds the free uses that the state does not bind.
-/

set_option autoImplicit false

namespace SimplyTyped

namespace FreeRefs

/-- Uses of references, from left to right. -/
def useAll (refs : List Ref) (state : FreeRefs) : FreeRefs :=
  refs.foldl (fun state ref => use ref state) state

theorem useAll_append (left right : List Ref) (state : FreeRefs) :
    useAll (left ++ right) state = useAll right (useAll left state) :=
  List.foldl_append

@[simp] theorem globals_use (ref : Ref) (state : FreeRefs) :
    (use ref state).globals = state.globals := by
  unfold use
  split <;> rfl

@[simp] theorem locals_use (ref : Ref) (state : FreeRefs) :
    (use ref state).locals = state.locals := by
  unfold use
  split <;> rfl

theorem binds_use {used ref : Ref} {state : FreeRefs} :
    (use used state).Binds ref ↔ state.Binds ref := by
  simp [Binds]

theorem binds_enter {params : List Ref} {ref : Ref} {state : FreeRefs} :
    (enter params state).Binds ref ↔ ref ∈ params ∨ state.Binds ref := by
  simp only [enter, Binds, List.mem_append, or_assoc, or_left_comm]

theorem mem_free_use {used ref : Ref} {state : FreeRefs} :
    ref ∈ (use used state).free ↔ ref ∈ state.free ∨ ref = used ∧ ¬ state.Binds ref := by
  unfold use
  by_cases bound : state.Binds used
  · rw [if_pos bound]
    constructor
    · exact .inl
    · intro found
      rcases found with found | ⟨rfl, free⟩
      · exact found
      · exact absurd bound free
  · rw [if_neg bound, SortedSet.mem_insert]
    constructor
    · intro found
      rcases found with rfl | found
      · exact .inr ⟨rfl, bound⟩
      · exact .inl found
    · intro found
      rcases found with found | ⟨rfl, -⟩
      · exact .inr found
      · exact .inl rfl

@[simp] theorem globals_useAll (refs : List Ref) (state : FreeRefs) :
    (useAll refs state).globals = state.globals := by
  induction refs generalizing state with
  | nil => rfl
  | cons ref refs ih => exact (ih (use ref state)).trans (globals_use ref state)

@[simp] theorem locals_useAll (refs : List Ref) (state : FreeRefs) :
    (useAll refs state).locals = state.locals := by
  induction refs generalizing state with
  | nil => rfl
  | cons ref refs ih => exact (ih (use ref state)).trans (locals_use ref state)

theorem mem_free_useAll {refs : List Ref} {ref : Ref} {state : FreeRefs} :
    ref ∈ (useAll refs state).free ↔ ref ∈ state.free ∨ ref ∈ refs ∧ ¬ state.Binds ref := by
  induction refs generalizing state with
  | nil => simp [useAll]
  | cons used refs ih =>
      have tail : ref ∈ (useAll refs (use used state)).free ↔
          ref ∈ (use used state).free ∨ ref ∈ refs ∧ ¬ state.Binds ref := by
        rw [ih, binds_use]
      have step : useAll (used :: refs) state = useAll refs (use used state) := rfl
      rw [step, tail, mem_free_use, List.mem_cons, or_and_right, or_assoc]

theorem ext_of_free {left right : FreeRefs} (globals : left.globals = right.globals)
    (locals : left.locals = right.locals) (free : ∀ ref, ref ∈ left.free ↔ ref ∈ right.free) :
    left = right := by
  obtain ⟨leftGlobals, leftLocals, leftFree⟩ := left
  obtain ⟨rightGlobals, rightLocals, rightFree⟩ := right
  cases globals
  cases locals
  cases SortedSet.ext free
  rfl

/-- Parameters that are bound for a while take their own uses away. -/
theorem useAll_filter (params refs : List Ref) (state : FreeRefs) :
    leave state.locals.length (useAll refs (enter params state)) =
      useAll (refs.filter (· ∉ params)) state := by
  refine ext_of_free (by simp [enter, leave]) (by simp [enter, leave]) fun ref => ?_
  have inside : ref ∈ (leave state.locals.length (useAll refs (enter params state))).free ↔
      ref ∈ state.free ∨ ref ∈ refs ∧ ¬ (enter params state).Binds ref := mem_free_useAll
  rw [inside, mem_free_useAll, binds_enter, not_or, List.mem_filter, decide_eq_true_eq, and_assoc]

theorem visitLambda_eq (params : List Ref) (body : Expr) (state : FreeRefs) :
    visitor.visitLambda params body state =
      leave state.locals.length (visitor.visitExpr body (enter params state)) := rfl

mutual

theorem visitExpr_eq_useAll (expr : Expr) (state : FreeRefs) :
    visitor.visitExpr expr state = useAll expr.freeUses state := by
  cases expr with
  | var ref => rfl
  | int value => rfl
  | bool value => rfl
  | app ty callee arguments =>
      have walked : visitor.visitExpr (.app ty callee arguments) state =
          visitor.visitExprs arguments (visitor.visitExpr callee state) := rfl
      rw [walked, visitExpr_eq_useAll callee, visitExprs_eq_useAll arguments, ← useAll_append,
        Expr.freeUses]
  | lambda ty params body =>
      have walked : visitor.visitExpr (.lambda ty params body) state =
          visitor.visitLambda params body state := rfl
      rw [walked, visitLambda_eq, visitExpr_eq_useAll body, useAll_filter, Expr.freeUses]

theorem visitExprs_eq_useAll (exprs : List Expr) (state : FreeRefs) :
    visitor.visitExprs exprs state = useAll (Expr.freeUsesAll exprs) state := by
  cases exprs with
  | nil => rfl
  | cons expr exprs =>
      have walked : visitor.visitExprs (expr :: exprs) state =
          visitor.visitExprs exprs (visitor.visitExpr expr state) := rfl
      rw [walked, visitExpr_eq_useAll expr, visitExprs_eq_useAll exprs, ← useAll_append,
        Expr.freeUsesAll]

end

theorem visitBinding_eq (binding : Binding) (state : FreeRefs) :
    visitor.visitBinding binding state =
      { useAll binding.value.freeUses state with globals := binding.name :: state.globals } := by
  have walked : visitor.visitBinding binding state =
      { visitor.visitExpr binding.value state with
        globals := binding.name :: (visitor.visitExpr binding.value state).globals } := rfl
  rw [walked, visitExpr_eq_useAll, globals_useAll]

/-! ## Programs -/

theorem pass_cons (binding : Binding) (bindings : List Binding) (entry : Expr) :
    pass ⟨binding :: bindings, entry⟩ = (do
      PassT.modify (visitor.visitBinding binding)
      pass ⟨bindings, entry⟩) := by
  simp only [pass, PassT.traverse, bind_assoc, pure_bind]
  rfl

/-- The analysis never fails. It finds what the program uses freely and the state does not
bind, and leaves the names of the bindings bound. -/
theorem run_pass (program : Program) (state : FreeRefs) :
    ∃ final, (pass program).run state = (.ok (), final) ∧
      final.globals = (program.bindings.map (·.name)).reverse ++ state.globals ∧
      final.locals = state.locals ∧
      ∀ ref, ref ∈ final.free ↔
        ref ∈ state.free ∨ ref ∈ program.freeUses ∧ ¬ state.Binds ref := by
  obtain ⟨bindings, entry⟩ := program
  induction bindings generalizing state with
  | nil =>
      refine ⟨useAll entry.freeUses state, ?_, globals_useAll .., locals_useAll .., fun _ =>
        mem_free_useAll⟩
      rw [← visitExpr_eq_useAll]
      rfl
  | cons binding bindings ih =>
      obtain ⟨final, run, globals, locals, free⟩ := ih (visitor.visitBinding binding state)
      rw [visitBinding_eq] at globals locals
      refine ⟨final, ?_, ?_, ?_, fun ref => ?_⟩
      · rw [pass_cons, Pass.run_bind, Pass.run_modify]
        exact run
      · rw [globals]
        simp
      · rw [locals]
        exact locals_useAll ..
      · have binds : (visitor.visitBinding binding state).Binds ref ↔
            ref = binding.name ∨ state.Binds ref := by
          simp [visitBinding_eq, Binds, or_left_comm]
        have uses : ref ∈ Program.freeUses ⟨binding :: bindings, entry⟩ ↔
            ref ∈ binding.value.freeUses ∨
              ref ∈ Program.freeUses ⟨bindings, entry⟩ ∧ ref ≠ binding.name := by
          simp [Program.freeUses, freeUsesFrom]
        have value : ref ∈ (visitor.visitBinding binding state).free ↔
            ref ∈ state.free ∨ ref ∈ binding.value.freeUses ∧ ¬ state.Binds ref := by
          rw [visitBinding_eq]
          exact mem_free_useAll
        rw [free, binds, uses, value, not_or, or_and_right, or_assoc, and_assoc]

end FreeRefs

/-- The analysis of a program finds its free uses. -/
theorem Program.freeRefs_eq (program : Program) :
    program.freeRefs = .ok (.ofList program.freeUses) := by
  obtain ⟨final, run, -, -, free⟩ := FreeRefs.run_pass program .empty
  have found : final.free = .ofList program.freeUses := by
    refine SortedSet.ext fun ref => ?_
    rw [free, SortedSet.mem_ofList]
    simp [FreeRefs.empty, FreeRefs.Binds]
  rw [freeRefs, Pass.execute_eq, run, ← found]
  rfl

end SimplyTyped
