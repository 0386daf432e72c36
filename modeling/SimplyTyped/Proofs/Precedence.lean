import SimplyTyped.Precedence
import SimplyTyped.SortedSet

/-!
# Comparison decides precedence

The comparisons of types and of references are total orders with precedence for their strict
part. What a sorted set lists is therefore determined by its members alone.
-/

set_option autoImplicit false

namespace SimplyTyped

/-! ## Types -/

theorem Ty.Precedes.compare_eq_lt {left right : Ty} (first : left.Precedes right) :
    compare left right = .lt := by
  induction first with
  | unknown_int | unknown_bool | int_bool => rfl
  | @simple ty domain codomain noFunction =>
      cases ty with
      | unknown | int | bool => rfl
      | arrow => cases noFunction
  | domain _ ih => rw [compare_arrow, ih, Ordering.lt_then]
  | codomain _ ih => rw [compare_arrow, Std.ReflOrd.compare_self, Ordering.eq_then, ih]

theorem Ty.precedes_of_compare {left right : Ty} (first : compare left right = .lt) :
    left.Precedes right := by
  induction left generalizing right with
  | unknown =>
      cases right with
      | unknown => cases first
      | int => exact .unknown_int
      | bool => exact .unknown_bool
      | arrow => exact .simple rfl
  | int =>
      cases right with
      | unknown | int => cases first
      | bool => exact .int_bool
      | arrow => exact .simple rfl
  | bool =>
      cases right with
      | unknown | int | bool => cases first
      | arrow => exact .simple rfl
  | arrow domain codomain domainIH codomainIH =>
      cases right with
      | unknown | int | bool => cases first
      | arrow domain' codomain' =>
          rw [compare_arrow, Ordering.then_eq_lt] at first
          rcases first with first | ⟨same, first⟩
          · exact .domain (domainIH first)
          · cases compare_eq_iff.mp same
            exact .codomain (codomainIH first)

theorem Ty.compare_eq_lt_iff {left right : Ty} :
    compare left right = .lt ↔ left.Precedes right :=
  ⟨precedes_of_compare, Precedes.compare_eq_lt⟩

/-! ## References -/

/-- Bytes compare as words in a dictionary: a proper beginning of a word comes before it. -/
theorem compare_bytes_eq_lt_iff {left right : List UInt8} :
    compare left right = .lt ↔ left < right := by
  induction left generalizing right with
  | nil => cases right <;> simp
  | cons byte bytes ih =>
      cases right with
      | nil => simp
      | cons byte' bytes' =>
          rw [List.compare_cons_cons, Ordering.then_eq_lt, List.cons_lt_cons_iff, ih,
            Std.compare_eq_lt, Std.compare_eq_iff_eq]

theorem Scope.compare_rank_eq_lt_iff {left right : Scope} :
    compare left.rank right.rank = .lt ↔ left.Precedes right := by
  constructor
  · intro first
    cases left with
    | unresolved =>
        cases right with
        | unresolved => cases first
        | param => exact .unresolved_param
        | global => exact .unresolved_global
    | param =>
        cases right with
        | unresolved | param => cases first
        | global => exact .param_global
    | global => cases right <;> cases first
  · intro first
    cases first <;> rfl

theorem Ref.compare_eq_lt_iff {left right : Ref} :
    compare left right = .lt ↔ left.Precedes right := by
  simp only [compare_def, Name.compare_def, Ordering.then_eq_lt, Std.compare_eq_iff_eq,
    Name.bytes_inj, compare_bytes_eq_lt_iff, Std.compare_eq_lt (α := UInt32), Ty.compare_eq_lt_iff,
    Scope.compare_rank_eq_lt_iff]
  -- What is left is one alternative for each rule, under the agreement of the parts before.
  constructor
  · obtain ⟨name, index, ty, scope⟩ := left
    obtain ⟨name', index', ty', scope'⟩ := right
    rintro (first | ⟨rfl, first | ⟨rfl, first | ⟨rfl, first⟩⟩⟩)
    · exact .name first
    · exact .index first
    · exact .ty first
    · exact .scope first
  · intro first
    cases first with
    | name first => exact .inl first
    | index first => exact .inr ⟨rfl, .inl first⟩
    | ty first => exact .inr ⟨rfl, .inr ⟨rfl, .inl first⟩⟩
    | scope first => exact .inr ⟨rfl, .inr ⟨rfl, .inr ⟨rfl, first⟩⟩⟩

/-! ## Sorted sets -/

section orders

variable {α : Type} [Ord α] [Std.TransOrd α] [Std.LawfulEqOrd α]

theorem isLinearOrder_compare :
    IsLinearOrder α fun left right => (compare left right).isLE = true where
  refl _ := Std.ReflCmp.isLE_rfl
  trans _ _ _ := Std.TransCmp.isLE_trans
  antisymm _ _ notAfter notBefore :=
    Std.compare_eq_iff_eq.mp (Std.OrientedCmp.isLE_antisymm notAfter notBefore)
  total left right := by
    have swapped : compare right left = (compare left right).swap := Std.OrientedOrd.eq_swap
    rw [swapped]
    cases compare left right <;> simp

/-- A lawful comparison decides what its answer `lt` decides. -/
theorem CompareDecides.of_lt_iff {precedes : α → α → Prop}
    (lt_iff : ∀ {left right : α}, compare left right = .lt ↔ precedes left right) :
    CompareDecides precedes where
  linear := isLinearOrder_compare
  lt_iff := lt_iff
  eq_iff := Std.compare_eq_iff_eq
  gt_iff := Std.OrientedCmp.gt_iff_lt.trans lt_iff

/-- A list that has the members in order is the one that the set of them is listed by. -/
theorem CompareDecides.toList_ofList_eq_iff {precedes : α → α → Prop}
    (decides : CompareDecides precedes) {members list : List α} :
    (SortedSet.ofList members).toList = list ↔ ListsInOrder precedes members list := by
  constructor
  · rintro rfl
    exact ⟨(SortedSet.ofList members).ascending.imp decides.lt_iff.mp, fun _ =>
      SortedSet.mem_ofList⟩
  · intro listed
    refine SortedSet.eq_of_ascending (SortedSet.ofList members).ascending
      (listed.ascending.imp decides.lt_iff.mpr) fun member => ?_
    exact SortedSet.mem_ofList.trans (listed.mem_iff member).symm

theorem SortedSet.toList_ofList_inj {left right : List α} :
    (ofList left).toList = (ofList right).toList ↔ ∀ member, member ∈ left ↔ member ∈ right := by
  constructor
  · intro same member
    rw [← mem_ofList, ← mem_toList, same, mem_toList, mem_ofList]
  · intro same
    have sets : ofList left = ofList right := ext fun member => by simp [same]
    rw [sets]

end orders

/-- Comparison decides the precedence of types and that of references, both of them total
orders in which only identical values are equal. A set of either, built from a list, is listed
in strictly ascending order with exactly the members of that list, and this is the only such
listing. Two lists build sets that are listed alike just when they have the same members, in
whatever order and however often. -/
theorem precedence_determines_listing :
    CompareDecides Ty.Precedes ∧ CompareDecides Ref.Precedes ∧
      (∀ members list : List Ty,
        (SortedSet.ofList members).toList = list ↔ ListsInOrder Ty.Precedes members list) ∧
      (∀ members list : List Ref,
        (SortedSet.ofList members).toList = list ↔ ListsInOrder Ref.Precedes members list) ∧
      (∀ left right : List Ty,
        (SortedSet.ofList left).toList = (SortedSet.ofList right).toList ↔
          ∀ ty, ty ∈ left ↔ ty ∈ right) ∧
      ∀ left right : List Ref,
        (SortedSet.ofList left).toList = (SortedSet.ofList right).toList ↔
          ∀ ref, ref ∈ left ↔ ref ∈ right := by
  have types : CompareDecides Ty.Precedes := .of_lt_iff Ty.compare_eq_lt_iff
  have refs : CompareDecides Ref.Precedes := .of_lt_iff Ref.compare_eq_lt_iff
  exact ⟨types, refs, fun _ _ => types.toList_ofList_eq_iff, fun _ _ => refs.toList_ofList_eq_iff,
    fun _ _ => SortedSet.toList_ofList_inj, fun _ _ => SortedSet.toList_ofList_inj⟩

/-- Bytes put capital letters first, and an index counts before any type. -/
example :
    let capital : Ref := ⟨⟨"B"⟩, 2, .arrow .int .int, .global⟩
    let early : Ref := ⟨⟨"a"⟩, 0, .bool, .param⟩
    let late : Ref := ⟨⟨"a"⟩, 1, .int, .global⟩
    (SortedSet.ofList [late, capital, late, early]).toList = [capital, early, late] := by
  decide

end SimplyTyped
