import SimplyTyped.Error.Basic

/-!
# Error codes

Each kind of error has a code that does not change with the wording of its message.
-/

set_option autoImplicit false

namespace SimplyTyped.Error

/-- The stable code of a kind of error. -/
inductive Code where
  | parse
  | malformed
  | mismatch
  | undefined
  | defect
  | generic
  deriving DecidableEq

namespace Code

/-- All codes, in ascending order of their texts. -/
def all : List Code :=
  [parse, malformed, mismatch, undefined, defect, generic]

/-- The text of a code. The first digit tells where the error belongs: 1 to the
reading of programs, 2 to names and types, 9 to the compiler itself. -/
def render : Code → String
  | parse => "E1001"
  | malformed => "E1002"
  | mismatch => "E2001"
  | undefined => "E2003"
  | defect => "E9001"
  | generic => "E9002"

/-- The codes of errors that belong to the compiler itself. -/
def isInternal : Code → Bool
  | defect | generic => true
  | parse | malformed | mismatch | undefined => false

end Code

def code : Error → Code
  | generic _ => .generic
  | defect _ => .defect
  | parse _ => .parse
  | malformed _ => .malformed
  | undefined _ => .undefined
  | mismatch _ => .mismatch

end SimplyTyped.Error
