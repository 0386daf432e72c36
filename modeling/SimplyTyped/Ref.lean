import SimplyTyped.Name
import SimplyTyped.Ty.Order

/-!
# References

A reference names one place where something is bound. Its index tells apart the
binders that share a name, so two references agree only when all four of their
parts do. A name that has no binder is an unresolved reference of unknown type.
-/

set_option autoImplicit false

namespace SimplyTyped

/-- Where a reference is bound. -/
inductive Scope where
  /-- Nowhere: the name has not been resolved. -/
  | unresolved
  /-- A parameter of an enclosing lambda. -/
  | param
  /-- A top-level binding that stands earlier in the program. -/
  | global
  deriving DecidableEq, Inhabited

namespace Scope

/-- The mark that a reference of this scope begins with in text. -/
def sigil : Scope → Char
  | unresolved => '$'
  | param => '%'
  | global => '@'

/-- The place of a scope in the order `unresolved`, `param`, `global`. -/
def rank : Scope → Nat
  | unresolved => 0
  | param => 1
  | global => 2

theorem rank_inj {left right : Scope} : left.rank = right.rank ↔ left = right := by
  cases left <;> cases right <;> decide

end Scope

structure Ref where
  name : Name
  index : UInt32
  ty : Ty
  scope : Scope
  deriving DecidableEq, Inhabited

namespace Ref

/-- What a name with no binder becomes. -/
def unresolved (name : Name) : Ref :=
  ⟨name, 0, .unknown, .unresolved⟩

/-- Scope alone tells whether a reference is resolved; its type and index do not. -/
def IsUnresolved (ref : Ref) : Prop :=
  ref.scope = .unresolved

instance (ref : Ref) : Decidable ref.IsUnresolved :=
  inferInstanceAs (Decidable (ref.scope = .unresolved))

/-- The text of a reference: sigil, name, index and type. -/
def render (ref : Ref) : String :=
  String.singleton ref.scope.sigil ++ ref.name.text ++ toString ref.index.toNat ++ ":" ++
    ref.ty.render

/-- References compare by name, then index, then type, then scope. -/
instance : Ord Ref where
  compare :=
    compareLex (compareOn name) <|
      compareLex (compareOn index) <|
        compareLex (compareOn ty) (compareOn fun ref => ref.scope.rank)

theorem compare_def (left right : Ref) :
    compare left right =
      (compare left.name right.name).then ((compare left.index right.index).then
        ((compare left.ty right.ty).then (compare left.scope.rank right.scope.rank))) := rfl

theorem compare_eq_iff {left right : Ref} : compare left right = .eq ↔ left = right := by
  rw [compare_def]
  cases left
  cases right
  simp [Ordering.then_eq_eq, Scope.rank_inj]

instance : Std.TransOrd Ref :=
  inferInstanceAs (Std.TransCmp (compareLex (compareOn name)
    (compareLex (compareOn index) (compareLex (compareOn ty) (compareOn fun ref => ref.scope.rank)))))

instance : Std.LawfulEqOrd Ref where
  compare_self := compare_eq_iff.mpr rfl
  eq_of_compare := compare_eq_iff.mp

end Ref

end SimplyTyped
