import SimplyTyped.Name
import SimplyTyped.Ty.Basic

/-!
# Source trees

A source tree is what was read of a program: names are bare, annotations may be
missing, `let` may stand anywhere, and nothing has been checked.
-/

set_option autoImplicit false

namespace SimplyTyped

/-- A parameter of a lambda and its annotation, if it has one. -/
structure Param where
  name : Name
  ty : Option Ty
  deriving DecidableEq, Inhabited

inductive Tree where
  | var (name : Name)
  | int (value : Int64)
  | bool (value : Bool)
  | app (callee : Tree) (arguments : List Tree)
  | lambda (params : List Param) (body : Tree)
  /-- `name` stands for `value` in `body`, and not in `value` itself. -/
  | letIn (name : Name) (value body : Tree)
  deriving Inhabited

namespace Tree

/-- Induction with one hypothesis for the callee and one for each argument. -/
@[elab_as_elim, induction_eliminator]
theorem induction {motive : Tree → Prop}
    (var : ∀ name, motive (.var name))
    (int : ∀ value, motive (.int value))
    (bool : ∀ value, motive (.bool value))
    (app : ∀ callee arguments, motive callee → (∀ argument ∈ arguments, motive argument) →
      motive (.app callee arguments))
    (lambda : ∀ params body, motive body → motive (.lambda params body))
    (letIn : ∀ name value body, motive value → motive body → motive (.letIn name value body))
    (tree : Tree) : motive tree :=
  Tree.rec (motive_2 := fun trees => ∀ tree ∈ trees, motive tree)
    var int bool app lambda letIn
    (fun _ member => absurd member List.not_mem_nil)
    (fun _ _ head tail _ member => by
      rcases List.mem_cons.mp member with rfl | member
      · exact head
      · exact tail _ member)
    tree

mutual

def decEq : (left right : Tree) → Decidable (left = right)
  | var name, var name' =>
      if same : name = name' then .isTrue (by rw [same]) else .isFalse (by simp [same])
  | int value, int value' =>
      if same : value = value' then .isTrue (by rw [same]) else .isFalse (by simp [same])
  | bool value, bool value' =>
      if same : value = value' then .isTrue (by rw [same]) else .isFalse (by simp [same])
  | app callee arguments, app callee' arguments' =>
      match decEq callee callee', decEqAll arguments arguments' with
      | .isTrue sameCallee, .isTrue sameArguments => .isTrue (by rw [sameCallee, sameArguments])
      | .isFalse different, _ => .isFalse (by simp [different])
      | _, .isFalse different => .isFalse (by simp [different])
  | lambda params body, lambda params' body' =>
      if sameParams : params = params' then
        match decEq body body' with
        | .isTrue sameBody => .isTrue (by rw [sameParams, sameBody])
        | .isFalse different => .isFalse (by simp [different])
      else .isFalse (by simp [sameParams])
  | letIn name value body, letIn name' value' body' =>
      if sameName : name = name' then
        match decEq value value', decEq body body' with
        | .isTrue sameValue, .isTrue sameBody => .isTrue (by rw [sameName, sameValue, sameBody])
        | .isFalse different, _ => .isFalse (by simp [different])
        | _, .isFalse different => .isFalse (by simp [different])
      else .isFalse (by simp [sameName])
  | var _, int _ | var _, bool _ | var _, app _ _ | var _, lambda _ _ | var _, letIn _ _ _ =>
      .isFalse nofun
  | int _, var _ | int _, bool _ | int _, app _ _ | int _, lambda _ _ | int _, letIn _ _ _ =>
      .isFalse nofun
  | bool _, var _ | bool _, int _ | bool _, app _ _ | bool _, lambda _ _ | bool _, letIn _ _ _ =>
      .isFalse nofun
  | app _ _, var _ | app _ _, int _ | app _ _, bool _ | app _ _, lambda _ _
  | app _ _, letIn _ _ _ => .isFalse nofun
  | lambda _ _, var _ | lambda _ _, int _ | lambda _ _, bool _ | lambda _ _, app _ _
  | lambda _ _, letIn _ _ _ => .isFalse nofun
  | letIn _ _ _, var _ | letIn _ _ _, int _ | letIn _ _ _, bool _ | letIn _ _ _, app _ _
  | letIn _ _ _, lambda _ _ => .isFalse nofun

def decEqAll : (left right : List Tree) → Decidable (left = right)
  | [], [] => .isTrue rfl
  | [], _ :: _ => .isFalse nofun
  | _ :: _, [] => .isFalse nofun
  | head :: tail, head' :: tail' =>
      match decEq head head', decEqAll tail tail' with
      | .isTrue sameHead, .isTrue sameTail => .isTrue (by rw [sameHead, sameTail])
      | .isFalse different, _ => .isFalse (by simp [different])
      | _, .isFalse different => .isFalse (by simp [different])

end

instance : DecidableEq Tree := decEq

/-! ## Chains of `let`s -/

/-- The chain of `let`s at the root: its names and values in order, and the body of
the last. -/
def splitLets : Tree → List (Name × Tree) × Tree
  | letIn name value body => ((name, value) :: body.splitLets.1, body.splitLets.2)
  | tree => ([], tree)

/-- Induction along the chain of `let`s at the root. A tree that begins with no `let` ends the
chain. -/
@[elab_as_elim]
theorem root_induction {motive : Tree → Prop}
    (entry : ∀ tree, tree.splitLets = ([], tree) → motive tree)
    (letIn : ∀ name value body, motive body → motive (.letIn name value body))
    (tree : Tree) : motive tree := by
  induction tree with
  | letIn name value body _ bodyIH => exact letIn name value body bodyIH
  | _ => exact entry _ rfl

/-- The tree with a chain of `let`s in front. -/
def letsIn (lets : List (Name × Tree)) (body : Tree) : Tree :=
  lets.foldr (fun binding body => letIn binding.1 binding.2 body) body

/-! ## Names

The names that a tree binds, and those that it uses without binding them. Lexical scope is told
here without references: a lambda binds the names of its parameters in its body, and a `let`
binds its name in its body but not in its value, at the root as anywhere else. -/

mutual

/-- The names that a tree binds, in the order of their declaration: parameters before
the body of their lambda, and the name of a `let` between its value and its body. -/
def binders : Tree → List Name
  | var _ | int _ | bool _ => []
  | app callee arguments => callee.binders ++ bindersAll arguments
  | lambda params body => params.map (·.name) ++ body.binders
  | letIn name value body => value.binders ++ name :: body.binders

def bindersAll : List Tree → List Name
  | [] => []
  | tree :: trees => tree.binders ++ bindersAll trees

end

mutual

/-- The names that are used in a tree and not bound in it, in the order of their uses. -/
def freeNames : Tree → List Name
  | var name => [name]
  | int _ | bool _ => []
  | app callee arguments => callee.freeNames ++ freeNamesAll arguments
  | lambda params body => body.freeNames.filter (· ∉ params.map (·.name))
  | letIn name value body => value.freeNames ++ body.freeNames.filter (· ≠ name)

def freeNamesAll : List Tree → List Name
  | [] => []
  | tree :: trees => tree.freeNames ++ freeNamesAll trees

end

end Tree

end SimplyTyped
