import SimplyTyped.Core.Observer
import SimplyTyped.Proofs.Core.FreeRefs

/-!
# What visitors meet

A visitor that only looks at uses of references folds them in order. A visitor that also does
something else, and goes on, meets the same uses: seen through a view of its state, it does
what the visitor does that looks at uses only.
-/

set_option autoImplicit false

namespace SimplyTyped

namespace Visitor

variable {σ τ : Type}

section uses

variable (use : Ref → σ → σ)

/-- The visitor that leaves all callbacks alone but the one on uses of references. -/
def ofUse : Visitor σ where
  var := use

mutual

theorem visitExpr_ofUse (expr : Expr) (state : σ) :
    (ofUse use).visitExpr expr state =
      expr.uses.foldl (fun state ref => use ref state) state := by
  cases expr with
  | var ref => rfl
  | int value => rfl
  | bool value => rfl
  | app ty callee arguments =>
      rw [Expr.uses, List.foldl_append, ← visitExpr_ofUse callee, ← visitExprs_ofUse arguments]
      rfl
  | lambda ty params body =>
      rw [Expr.uses, ← visitExpr_ofUse body]
      rfl

theorem visitExprs_ofUse (exprs : List Expr) (state : σ) :
    (ofUse use).visitExprs exprs state =
      (Expr.usesAll exprs).foldl (fun state ref => use ref state) state := by
  cases exprs with
  | nil => rfl
  | cons expr exprs =>
      rw [Expr.usesAll, List.foldl_append, ← visitExpr_ofUse expr, ← visitExprs_ofUse exprs]
      rfl

end

theorem visitBindings_ofUse (bindings : List Binding) (state : σ) :
    bindings.foldl (fun state binding => (ofUse use).visitBinding binding state) state =
      (bindings.flatMap (·.value.uses)).foldl (fun state ref => use ref state) state := by
  induction bindings generalizing state with
  | nil => rfl
  | cons binding bindings ih =>
      rw [List.flatMap_cons, List.foldl_append, ← visitExpr_ofUse, ← ih]
      rfl

theorem visitProgram_ofUse (program : Program) (state : σ) :
    (ofUse use).visitProgram program state =
      program.uses.foldl (fun state ref => use ref state) state := by
  rw [Program.uses, List.foldl_append, ← visitBindings_ofUse, ← visitExpr_ofUse]
  rfl

end uses

theorem foldl_concat (refs met : List Ref) :
    refs.foldl (fun met ref => met ++ [ref]) met = met ++ refs := by
  rw [List.foldl_append_eq_append, ← List.flatMap_def, List.flatMap_singleton']

/-- Seen through `view`, each callback of `visitor` does what the same callback of `other`
does, as soon as this holds of the walks that the two of them receive. -/
structure Follows (visitor : Visitor σ) (view : σ → τ) (other : Visitor τ) : Prop where
  program : ∀ program walk walk', (∀ state, view (walk state) = walk' (view state)) →
    ∀ state, view (visitor.program program walk state) = other.program program walk' (view state)
  binding : ∀ binding walk walk', (∀ state, view (walk state) = walk' (view state)) →
    ∀ state, view (visitor.binding binding walk state) = other.binding binding walk' (view state)
  expr : ∀ expr walk walk', (∀ state, view (walk state) = walk' (view state)) →
    ∀ state, view (visitor.expr expr walk state) = other.expr expr walk' (view state)
  var : ∀ ref state, view (visitor.var ref state) = other.var ref (view state)
  lambda : ∀ params body walk walk', (∀ state, view (walk state) = walk' (view state)) →
    ∀ state, view (visitor.lambda params body walk state) =
      other.lambda params body walk' (view state)

namespace Follows

variable {visitor : Visitor σ} {view : σ → τ} {other : Visitor τ}

mutual

theorem visitExpr (follows : visitor.Follows view other) (expr : Expr) (state : σ) :
    view (visitor.visitExpr expr state) = other.visitExpr expr (view state) := by
  cases expr with
  | var ref => exact follows.expr _ _ _ (follows.var ref) state
  | int value => exact follows.expr _ _ _ (fun _ => rfl) state
  | bool value => exact follows.expr _ _ _ (fun _ => rfl) state
  | app ty callee arguments =>
      refine follows.expr _ _ _ (fun state => ?_) state
      rw [visitExprs follows arguments, visitExpr follows callee]
  | lambda ty params body =>
      exact follows.expr _ _ _ (follows.lambda params body _ _ (visitExpr follows body)) state

theorem visitExprs (follows : visitor.Follows view other) (exprs : List Expr) (state : σ) :
    view (visitor.visitExprs exprs state) = other.visitExprs exprs (view state) := by
  cases exprs with
  | nil => rfl
  | cons expr exprs =>
      rw [Visitor.visitExprs, Visitor.visitExprs, visitExprs follows exprs, visitExpr follows expr]

end

theorem visitBinding (follows : visitor.Follows view other) (binding : Binding) (state : σ) :
    view (visitor.visitBinding binding state) = other.visitBinding binding (view state) :=
  follows.binding _ _ _ (follows.visitExpr binding.value) state

theorem visitBindings (follows : visitor.Follows view other) (bindings : List Binding)
    (state : σ) :
    view (bindings.foldl (fun state binding => visitor.visitBinding binding state) state) =
      bindings.foldl (fun state binding => other.visitBinding binding state) (view state) := by
  induction bindings generalizing state with
  | nil => rfl
  | cons binding bindings ih => rw [List.foldl_cons, List.foldl_cons, ih, follows.visitBinding]

theorem visitProgram (follows : visitor.Follows view other) (program : Program) (state : σ) :
    view (visitor.visitProgram program state) = other.visitProgram program (view state) := by
  refine follows.program _ _ _ (fun state => ?_) state
  rw [follows.visitExpr, follows.visitBindings]

end Follows

end Visitor

namespace Observer

variable {σ : Type}

theorem beside_run_fst {τ : Type} (around : Around σ) {walk : σ × τ → σ × τ} {walk' : σ → σ}
    (same : ∀ state, (walk state).1 = walk' state.1) (state : σ × τ) :
    ((around.beside τ).run walk state).1 = around.run walk' state.1 :=
  congrArg (around.after state.1) (same _)

/-- Noting does not disturb: the observer's own state becomes what it becomes without it. -/
theorem noting_follows (observer : Observer σ) :
    observer.noting.visitor.Follows Prod.fst observer.visitor where
  program _ _ _ same := beside_run_fst _ same
  binding _ _ _ same := beside_run_fst _ same
  expr _ _ _ same := beside_run_fst _ same
  var _ _ := rfl
  lambda _ _ _ _ same := beside_run_fst _ same

/-- Whatever the observer does besides, what it notes down is what a visitor of uses notes
down that does nothing else. -/
theorem noting_follows_ofUse (observer : Observer σ) :
    observer.noting.visitor.Follows Prod.snd (Visitor.ofUse fun ref met => met ++ [ref]) where
  program _ _ _ same _ := same _
  binding _ _ _ same _ := same _
  expr _ _ _ same _ := same _
  var _ _ := rfl
  lambda _ _ _ _ same _ := same _

end Observer

namespace Expr

mutual

theorem mem_uses_of_mem_freeUses {expr : Expr} {ref : Ref} (free : ref ∈ expr.freeUses) :
    ref ∈ expr.uses := by
  cases expr with
  | var used => exact free
  | int value => exact free
  | bool value => exact free
  | app ty callee arguments =>
      rw [freeUses, List.mem_append] at free
      exact List.mem_append.mpr (free.imp mem_uses_of_mem_freeUses mem_usesAll_of_mem_freeUsesAll)
  | lambda ty params body =>
      have inside : ref ∈ body.freeUses := (List.mem_filter.mp free).1
      exact (mem_uses_of_mem_freeUses inside : ref ∈ body.uses)

theorem mem_usesAll_of_mem_freeUsesAll {exprs : List Expr} {ref : Ref}
    (free : ref ∈ freeUsesAll exprs) : ref ∈ usesAll exprs := by
  cases exprs with
  | nil => exact free
  | cons expr exprs =>
      rw [freeUsesAll, List.mem_append] at free
      exact List.mem_append.mpr (free.imp mem_uses_of_mem_freeUses mem_usesAll_of_mem_freeUsesAll)

end

end Expr

theorem Program.mem_uses_of_mem_freeUses {program : Program} {ref : Ref}
    (free : ref ∈ program.freeUses) : ref ∈ program.uses := by
  obtain ⟨bindings, entry⟩ := program
  induction bindings with
  | nil => exact Expr.mem_uses_of_mem_freeUses free
  | cons binding bindings ih =>
      rw [freeUses, freeUsesFrom, List.mem_append] at free
      rw [uses, List.flatMap_cons, List.append_assoc, List.mem_append]
      exact free.imp Expr.mem_uses_of_mem_freeUses fun later => ih (List.mem_filter.mp later).1

/-! ## The recorder -/

/-- The reference whose use was met. -/
def Visit.use? : Visit → Option Ref
  | use ref => some ref
  | program | binding _ | expr _ | params _ => none

theorem Visitor.recorder_follows :
    recorder.Follows (fun visits => visits.toList.filterMap Visit.use?)
      (ofUse fun ref met => met ++ [ref]) where
  program _ _ _ same visits := by simp [recorder, ofUse, same, List.filterMap_cons, Visit.use?]
  binding _ _ _ same visits := by simp [recorder, ofUse, same, List.filterMap_cons, Visit.use?]
  expr _ _ _ same visits := by simp [recorder, ofUse, same, List.filterMap_cons, Visit.use?]
  var _ visits := by simp [recorder, ofUse, Visit.use?]
  lambda _ _ _ _ same visits := by simp [recorder, ofUse, same, List.filterMap_cons, Visit.use?]

/-- Among all that the recorder notes down, the uses are those of the program, in order. -/
theorem Visitor.recorder_uses (program : Program) :
    (recorder.visitProgram program #[]).toList.filterMap Visit.use? = program.uses := by
  rw [recorder_follows.visitProgram, visitProgram_ofUse, foldl_concat]
  rfl

/-- A visitor of uses folds its callback over the uses of a program, in order and each once,
whatever the callback makes of its state. An observer, which acts at every node and goes on,
meets the same uses in the same order. The free references of the program are among them. -/
theorem Visitor.visitProgram_meets_uses (program : Program) :
    (∀ (σ : Type) (use : Ref → σ → σ) (state : σ),
      visitProgram { var := use } program state =
        program.uses.foldl (fun state ref => use ref state) state) ∧
    (∀ (σ : Type) (observer : Observer σ) (state : σ) (met : List Ref),
      observer.noting.visitor.visitProgram program (state, met) =
        (observer.visitor.visitProgram program state, met ++ program.uses)) ∧
    ∃ free, program.freeRefs = .ok free ∧ ∀ ref ∈ free, ref ∈ program.uses := by
  refine ⟨fun σ use state => visitProgram_ofUse use program state,
    fun σ observer state met => ?_, .ofList program.freeUses, program.freeRefs_eq, ?_⟩
  · refine Prod.ext (observer.noting_follows.visitProgram program (state, met)) ?_
    rw [observer.noting_follows_ofUse.visitProgram, visitProgram_ofUse, foldl_concat]
  · exact fun ref found => Program.mem_uses_of_mem_freeUses (SortedSet.mem_ofList.mp found)

/-- The analysis of free references is an observer: it binds what a binding and a lambda bind
around the walk, and goes on. -/
example : FreeRefs.visitor = Observer.visitor {
    binding := fun binding =>
      { after := fun _ walked => { walked with globals := binding.name :: walked.globals } }
    var := FreeRefs.use
    lambda := fun params _ =>
      { before := FreeRefs.enter params
        after := fun called => FreeRefs.leave called.locals.length } } := rfl

end SimplyTyped
