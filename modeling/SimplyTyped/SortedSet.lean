/-!
# Sorted sets

A finite set kept as its strictly ascending list of members. Over a total order
that is equal only on identical members, the list is determined by its members
(`SortedSet.ext`), whatever the order and the repetitions they came in.
-/

set_option autoImplicit false

namespace SimplyTyped

/-- A finite set, in ascending order. -/
structure SortedSet (α : Type) [Ord α] where
  toList : List α
  ascending : toList.Pairwise fun left right => compare left right = .lt

namespace SortedSet

variable {α : Type} [Ord α]

instance [DecidableEq α] : DecidableEq (SortedSet α) := fun left right =>
  if same : left.toList = right.toList then
    .isTrue (by cases left; cases right; cases same; rfl)
  else
    .isFalse fun equal => same (equal ▸ rfl)

def empty : SortedSet α := ⟨[], .nil⟩

instance : EmptyCollection (SortedSet α) := ⟨empty⟩

instance : Inhabited (SortedSet α) := ⟨empty⟩

instance : Membership α (SortedSet α) := ⟨fun set member => member ∈ set.toList⟩

theorem mem_toList {set : SortedSet α} {member : α} : member ∈ set.toList ↔ member ∈ set := Iff.rfl

@[simp] theorem not_mem_empty {member : α} : member ∉ (∅ : SortedSet α) := List.not_mem_nil

/-- Puts a member in its place in an ascending list, unless it stands there already. -/
def place (member : α) : List α → List α
  | [] => [member]
  | head :: tail =>
      match compare member head with
      | .lt => member :: head :: tail
      | .eq => head :: tail
      | .gt => head :: place member tail

theorem compare_self_ne_lt [Std.ReflOrd α] {member : α} : compare member member ≠ .lt := by
  rw [Std.ReflOrd.compare_self]
  exact nofun

theorem mem_place [Std.LawfulEqOrd α] {member other : α} {members : List α} :
    other ∈ place member members ↔ other = member ∨ other ∈ members := by
  induction members with
  | nil => simp [place]
  | cons head tail ih =>
      unfold place
      split
      · simp
      · next same =>
          cases Std.LawfulEqOrd.eq_of_compare same
          simp
      · simp only [List.mem_cons, ih]
        exact or_left_comm

variable [Std.TransOrd α] [Std.LawfulEqOrd α]

theorem place_ascending {member : α} {members : List α}
    (ascending : members.Pairwise fun left right => compare left right = .lt) :
    (place member members).Pairwise fun left right => compare left right = .lt := by
  induction members with
  | nil => exact List.pairwise_singleton _ _
  | cons head tail ih =>
      have ⟨below, rest⟩ := List.pairwise_cons.mp ascending
      unfold place
      split
      · next first =>
          refine List.pairwise_cons.mpr ⟨fun other found => ?_, ascending⟩
          rcases List.mem_cons.mp found with rfl | found
          · exact first
          · exact Std.TransCmp.lt_trans first (below other found)
      · exact ascending
      · next later =>
          refine List.pairwise_cons.mpr ⟨fun other found => ?_, ih rest⟩
          rcases mem_place.mp found with rfl | found
          · exact Std.OrientedCmp.lt_of_gt later
          · exact below other found

/-- The set with one more member. A member that is there already changes nothing. -/
def insert (set : SortedSet α) (member : α) : SortedSet α :=
  ⟨place member set.toList, place_ascending set.ascending⟩

@[simp] theorem mem_insert {set : SortedSet α} {member other : α} :
    other ∈ set.insert member ↔ other = member ∨ other ∈ set :=
  mem_place

def ofList (members : List α) : SortedSet α :=
  members.foldl insert ∅

theorem mem_foldl_insert {members : List α} {set : SortedSet α} {other : α} :
    other ∈ members.foldl insert set ↔ other ∈ members ∨ other ∈ set := by
  induction members generalizing set with
  | nil => simp
  | cons head tail ih =>
      rw [List.foldl_cons, ih, mem_insert, List.mem_cons]
      exact ⟨fun h => by rcases h with h | h | h <;> simp [h],
        fun h => by rcases h with (h | h) | h <;> simp [h]⟩

@[simp] theorem mem_ofList {members : List α} {other : α} :
    other ∈ ofList members ↔ other ∈ members := by
  rw [ofList, mem_foldl_insert]
  simp

/-- The values of a function on a set, each once. -/
def image {β : Type} [Ord β] [Std.TransOrd β] [Std.LawfulEqOrd β] (f : α → β)
    (set : SortedSet α) : SortedSet β :=
  ofList (set.toList.map f)

instance : Union (SortedSet α) := ⟨fun left right => right.toList.foldl insert left⟩

@[simp] theorem mem_union {left right : SortedSet α} {member : α} :
    member ∈ left ∪ right ↔ member ∈ left ∨ member ∈ right :=
  mem_foldl_insert.trans or_comm

theorem ofList_eq_empty_iff {members : List α} : ofList members = ∅ ↔ members = [] := by
  cases members with
  | nil => exact ⟨fun _ => rfl, fun _ => rfl⟩
  | cons head tail =>
      have member : head ∈ ofList (head :: tail) := mem_ofList.mpr List.mem_cons_self
      refine ⟨fun empty => ?_, nofun⟩
      rw [empty] at member
      exact absurd member not_mem_empty

/-- Ascending lists with the same members are the same list. -/
theorem eq_of_ascending {left right : List α}
    (leftAscending : left.Pairwise fun a b => compare a b = .lt)
    (rightAscending : right.Pairwise fun a b => compare a b = .lt)
    (same : ∀ member, member ∈ left ↔ member ∈ right) : left = right := by
  induction left generalizing right with
  | nil =>
      cases right with
      | nil => rfl
      | cons head tail => exact absurd ((same head).mpr List.mem_cons_self) List.not_mem_nil
  | cons head tail ih =>
      have ⟨below, rest⟩ := List.pairwise_cons.mp leftAscending
      cases right with
      | nil => exact absurd ((same head).mp List.mem_cons_self) List.not_mem_nil
      | cons head' tail' =>
          have ⟨below', rest'⟩ := List.pairwise_cons.mp rightAscending
          have heads : head = head' := by
            rcases List.mem_cons.mp ((same head).mp List.mem_cons_self) with equal | later
            · exact equal
            rcases List.mem_cons.mp ((same head').mpr List.mem_cons_self) with equal | later'
            · exact equal.symm
            exact absurd (Std.TransCmp.lt_trans (below' head later) (below head' later'))
              compare_self_ne_lt
          cases heads
          refine congrArg _ (ih rest rest' fun member => ?_)
          constructor <;> intro found
          · rcases List.mem_cons.mp ((same member).mp (List.mem_cons_of_mem _ found)) with
              rfl | found'
            · exact absurd (below _ found) compare_self_ne_lt
            · exact found'
          · rcases List.mem_cons.mp ((same member).mpr (List.mem_cons_of_mem _ found)) with
              rfl | found'
            · exact absurd (below' _ found) compare_self_ne_lt
            · exact found'

/-- Sets with the same members are the same set, and are listed alike. -/
theorem ext {left right : SortedSet α} (same : ∀ member, member ∈ left ↔ member ∈ right) :
    left = right := by
  cases left with
  | mk left leftAscending =>
      cases right with
      | mk right rightAscending =>
          cases eq_of_ascending leftAscending rightAscending same
          rfl

end SortedSet

end SimplyTyped
