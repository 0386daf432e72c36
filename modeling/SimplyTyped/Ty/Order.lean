import SimplyTyped.Ty.Basic

/-!
# The order of types

`unknown`, then `int`, then `bool`, then the arrows, which compare by domain and
then by codomain. The order is total, and equal only on identical types.
-/

set_option autoImplicit false

namespace SimplyTyped.Ty

/-- Types of different rank compare by rank alone. -/
def rank : Ty → Nat
  | unknown => 0
  | int => 1
  | bool => 2
  | arrow _ _ => 3

protected def compare : Ty → Ty → Ordering
  | arrow domain codomain, arrow domain' codomain' =>
      (domain.compare domain').then (codomain.compare codomain')
  | left, right => Ord.compare left.rank right.rank

instance : Ord Ty := ⟨Ty.compare⟩

theorem compare_arrow (domain codomain domain' codomain' : Ty) :
    compare (arrow domain codomain) (arrow domain' codomain') =
      (compare domain domain').then (compare codomain codomain') := rfl

theorem compare_swap (left right : Ty) : compare left right = (compare right left).swap := by
  induction left generalizing right with
  | unknown | int | bool => cases right <;> rfl
  | arrow domain codomain domainIH codomainIH =>
      cases right with
      | unknown | int | bool => rfl
      | arrow domain' codomain' =>
          rw [compare_arrow, compare_arrow, Ordering.swap_then, ← domainIH, ← codomainIH]

theorem compare_eq_iff {left right : Ty} : compare left right = .eq ↔ left = right := by
  induction left generalizing right with
  | unknown | int | bool => cases right <;> simp [compare, Ty.compare, rank, compareOfLessAndEq]
  | arrow domain codomain domainIH codomainIH =>
      cases right with
      | unknown | int | bool => simp [compare, Ty.compare, rank, compareOfLessAndEq]
      | arrow domain' codomain' =>
          rw [compare_arrow, Ordering.then_eq_eq, domainIH, codomainIH, arrow.injEq]

theorem compare_lt_trans {first second third : Ty}
    (below : compare first second = .lt) (above : compare second third = .lt) :
    compare first third = .lt := by
  induction first generalizing second third with
  | unknown | int | bool =>
      cases second <;> cases third <;>
        simp_all [compare, Ty.compare, rank, compareOfLessAndEq]
  | arrow domain codomain domainIH codomainIH =>
      cases second with
      | unknown | int | bool => cases below
      | arrow domain' codomain' =>
          cases third with
          | unknown | int | bool => cases above
          | arrow domain'' codomain'' =>
              rw [compare_arrow, Ordering.then_eq_lt] at below above ⊢
              rcases below with below | ⟨same, below⟩ <;>
                rcases above with above | ⟨same', above⟩
              · exact .inl (domainIH below above)
              · exact .inl (compare_eq_iff.mp same' ▸ below)
              · exact .inl (compare_eq_iff.mp same ▸ above)
              · exact .inr ⟨compare_eq_iff.mp same ▸ same', codomainIH below above⟩

instance : Std.TransOrd Ty where
  eq_swap := compare_swap _ _
  isLE_trans {first second third} below above := by
    rw [Ordering.isLE_iff_eq_lt_or_eq_eq] at below above ⊢
    rcases below with below | same
    · rcases above with above | same'
      · exact .inl (compare_lt_trans below above)
      · exact .inl (compare_eq_iff.mp same' ▸ below)
    · exact compare_eq_iff.mp same ▸ above

instance : Std.LawfulEqOrd Ty where
  compare_self := compare_eq_iff.mpr rfl
  eq_of_compare := compare_eq_iff.mp

end SimplyTyped.Ty
