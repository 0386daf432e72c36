import SimplyTyped.Text.Quoted

/-!
# Names

A name is the spelling of an identifier; any text is a name. Names compare by
the bytes of their spelling.
-/

set_option autoImplicit false

namespace SimplyTyped

/-- An identifier. Two names are the same when their spellings are. -/
structure Name where
  text : String
  deriving DecidableEq, Inhabited

namespace Name

/-- The spelling as UTF-8 bytes, the key that names are ordered by. -/
def bytes (name : Name) : List UInt8 :=
  name.text.toUTF8.data.toList

theorem bytes_inj {left right : Name} : left.bytes = right.bytes ↔ left = right := by
  refine ⟨fun same => ?_, fun same => same ▸ rfl⟩
  cases left
  cases right
  exact congrArg Name.mk (String.toByteArray_inj.mp (ByteArray.ext (Array.toList_inj.mp same)))

instance : Ord Name := ⟨fun left right => compare left.bytes right.bytes⟩

theorem compare_def (left right : Name) :
    compare left right = compare left.bytes right.bytes := rfl

instance : Std.TransOrd Name where
  eq_swap := Std.OrientedOrd.eq_swap (α := List UInt8)
  isLE_trans below above := Std.TransOrd.isLE_trans (α := List UInt8) below above

instance : Std.LawfulEqOrd Name where
  compare_self := Std.ReflOrd.compare_self (α := List UInt8)
  eq_of_compare same := bytes_inj.mp (Std.LawfulEqOrd.eq_of_compare same)

/-- The form in which a name is inspected: quoted, inside `Name(…)`. -/
def inspect (name : Name) : String :=
  "Name(" ++ Text.quote name.text ++ ")"

end Name

end SimplyTyped
