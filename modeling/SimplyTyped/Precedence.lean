import Mathlib.Order.Defs.Unbundled
import SimplyTyped.Ref

/-!
# Precedence

Which of two types, and which of two references, comes first, by rules. A comparison decides
precedence when it is a total order with precedence for its strict part.
-/

set_option autoImplicit false

namespace SimplyTyped

/-- `Precedes left right` says that `left` comes first. Arrows come after all other types, and
two arrows with different domains are told apart by these alone. -/
inductive Ty.Precedes : Ty → Ty → Prop where
  | unknown_int : Precedes .unknown .int
  | unknown_bool : Precedes .unknown .bool
  | int_bool : Precedes .int .bool
  | simple {ty domain codomain} :
      ty.isFunction = false → Precedes ty (.arrow domain codomain)
  | domain {domain domain' codomain codomain'} :
      Precedes domain domain' → Precedes (.arrow domain codomain) (.arrow domain' codomain')
  | codomain {domain codomain codomain'} :
      Precedes codomain codomain' → Precedes (.arrow domain codomain) (.arrow domain codomain')

inductive Scope.Precedes : Scope → Scope → Prop where
  | unresolved_param : Precedes .unresolved .param
  | unresolved_global : Precedes .unresolved .global
  | param_global : Precedes .param .global

/-- Of two references the first part that differs decides: the bytes of the name, as words in
a dictionary, then the index, then the type, then the scope. -/
inductive Ref.Precedes : Ref → Ref → Prop where
  | name {left right : Ref} : left.name.bytes < right.name.bytes → Precedes left right
  | index {name index index' ty ty' scope scope'} :
      index < index' → Precedes ⟨name, index, ty, scope⟩ ⟨name, index', ty', scope'⟩
  | ty {name index ty ty' scope scope'} :
      ty.Precedes ty' → Precedes ⟨name, index, ty, scope⟩ ⟨name, index, ty', scope'⟩
  | scope {name index ty scope scope'} :
      scope.Precedes scope' → Precedes ⟨name, index, ty, scope⟩ ⟨name, index, ty, scope'⟩

variable {α : Type}

/-- Comparison is a total order, and its three answers say which of two values comes first, or
that they are one and the same value. -/
structure CompareDecides [Ord α] (precedes : α → α → Prop) : Prop where
  linear : IsLinearOrder α fun left right => (compare left right).isLE = true
  lt_iff {left right : α} : compare left right = .lt ↔ precedes left right
  eq_iff {left right : α} : compare left right = .eq ↔ left = right
  gt_iff {left right : α} : compare left right = .gt ↔ precedes right left

/-- `list` has exactly the members of `members`, and each of its members precedes all that
follow. So none is repeated where no value precedes itself. -/
structure ListsInOrder (precedes : α → α → Prop) (members list : List α) : Prop where
  ascending : list.Pairwise precedes
  mem_iff (member : α) : member ∈ list ↔ member ∈ members

end SimplyTyped
