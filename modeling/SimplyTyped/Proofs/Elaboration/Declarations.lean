import SimplyTyped.Elaboration.Declarations
import SimplyTyped.Elaboration.Requests
import SimplyTyped.Proofs.Elaboration.Derivation

/-!
# Declarations of elaborated programs

An elaborated program binds what its tree declares, and nothing besides. The binders come of
the requests for indices one for one, in the order of the declarations.
-/

set_option autoImplicit false

namespace SimplyTyped

mutual

theorem Elaborates.declared_perm {environment : Environment} {tree : Tree} {expr : Expr}
    (derived : Elaborates environment tree expr) : (tree.declared expr).Perm expr.binders := by
  cases derived with
  | var | int | bool => exact .refl _
  | app _ function values _ => exact function.declared_perm.append values.declared_perm
  | lambda _ body => exact body.declared_perm.append_left _
  | letIn valueDerived _ bodyDerived _ =>
      rw [Expr.abstract, Tree.declared, Expr.binders, Expr.binders, Expr.bindersAll,
        Expr.bindersAll, List.append_nil]
      refine List.perm_append_comm.trans ?_
      exact (bodyDerived.declared_perm.append_left _).append valueDerived.declared_perm

theorem ElaboratesAll.declared_perm {environment : Environment} {trees : List Tree}
    {exprs : List Expr} (derived : ElaboratesAll environment trees exprs) :
    (Tree.declaredAll trees exprs).Perm (Expr.bindersAll exprs) := by
  cases derived with
  | nil => exact .refl _
  | cons head tail => exact head.declared_perm.append tail.declared_perm

end

theorem ElaboratesProgram.declared_perm {environment : Environment} {tree : Tree}
    {program : Program} (derived : ElaboratesProgram environment tree program) :
    (tree.declaredProgram program).Perm program.binders := by
  induction derived with
  | entry single entry =>
      rw [Tree.declaredProgram, Tree.declaredFrom_of_splitLets single]
      exact entry.declared_perm
  | letIn valueDerived same _ ih =>
      subst same
      rw [Program.binders, List.flatMap_cons, List.append_assoc, List.append_assoc]
      exact valueDerived.declared_perm.append (ih.cons _)

/-! ## Requests of what succeeds -/

theorem Elaborates.onSuccess_elaborate {environment : Environment} {tree : Tree} {expr : Expr}
    (derived : Elaborates environment tree expr) (next : Expr → Environment → List Ref) :
    tree.elaborate.onSuccess environment next = next expr (environment.issueAll tree.binders) :=
  Pass.onSuccess_of_ok next (Tree.run_elaborate_eq_ok_iff.mpr ⟨derived, rfl⟩)

mutual

theorem Elaborates.requests_eq {environment : Environment} {tree : Tree} {expr : Expr}
    (derived : Elaborates environment tree expr) :
    tree.requests environment = tree.declared expr := by
  cases derived with
  | var | int | bool => rfl
  | app some function values _ =>
      rw [Tree.requests, if_neg (by simpa using some), function.onSuccess_elaborate,
        function.requests_eq, values.requests_eq, Tree.declared]
  | lambda accepted body =>
      simp only [Tree.requests, accepted, body.requests_eq, Expr.abstract, Tree.declared]
  | letIn value same body _ =>
      subst same
      rw [Tree.requests, value.onSuccess_elaborate, value.requests_eq, body.requests_eq]
      rfl

theorem ElaboratesAll.requests_eq {environment : Environment} {trees : List Tree}
    {exprs : List Expr} (derived : ElaboratesAll environment trees exprs) :
    Tree.requestsAll trees environment = Tree.declaredAll trees exprs := by
  cases derived with
  | nil => rfl
  | cons head tail =>
      rw [Tree.requestsAll, head.onSuccess_elaborate, head.requests_eq, tail.requests_eq,
        Tree.declaredAll]

end

theorem ElaboratesProgram.requests_eq {environment : Environment} {tree : Tree}
    {program : Program} (derived : ElaboratesProgram environment tree program) :
    tree.programRequests environment = tree.declaredProgram program := by
  induction derived with
  | entry single entry =>
      rw [Tree.declaredProgram, Tree.declaredFrom_of_splitLets single,
        Tree.programRequests_of_splitLets single, entry.requests_eq]
  | letIn value same _ ih =>
      subst same
      rw [Tree.programRequests, value.onSuccess_elaborate, value.requests_eq, ih]
      rfl

end SimplyTyped
