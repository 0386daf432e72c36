import SimplyTyped.Ty.Basic

/-!
# Applying a type to argument types

Arguments are consumed from left to right. Each must be identical to the domain
that it meets; what is left of the function type is the type of the application.
A refusal names the first argument that could not be consumed.
-/

set_option autoImplicit false

namespace SimplyTyped

/-- Why an argument could not be consumed. Positions count from zero. -/
inductive Refusal where
  /-- The argument at `position` met `found`, which is no function. -/
  | notFunction (position : Nat) (found : Ty)
  /-- The argument at `position` has type `found` where `expected` is the domain. -/
  | argument (position : Nat) (expected found : Ty)
  deriving DecidableEq, Repr

namespace Ty

/-- Consumes the arguments, the first of which stands at `position`. -/
def applyFrom (position : Nat) (function : Ty) : List Ty → Except Refusal Ty
  | [] => .ok function
  | found :: rest =>
      match function with
      | arrow domain codomain =>
          if domain = found then applyFrom (position + 1) codomain rest
          else .error (.argument position domain found)
      | other => .error (.notFunction position other)

/-- What is left of `function` after all arguments. Fewer arguments than arrows
leave a function type, which is no refusal. -/
def apply (function : Ty) (arguments : List Ty) : Except Refusal Ty :=
  function.applyFrom 0 arguments

/-- `function.EndsAt arguments position rest` says that the arguments before `position` are
consumed, and that what they leave is no function. -/
def EndsAt (function : Ty) (arguments : List Ty) (position : Nat) (rest : Ty) : Prop :=
  position < arguments.length ∧ function = arrows (arguments.take position) rest ∧
    rest.isFunction = false

/-- `function.DiffersAt arguments position expected found` says that the arguments before
`position` are consumed, and that what they leave takes `expected`, which the argument `found`
at `position` is not. -/
def DiffersAt (function : Ty) (arguments : List Ty) (position : Nat) (expected found : Ty) :
    Prop :=
  ∃ (inside : position < arguments.length) (codomain : Ty), found = arguments[position] ∧
    found ≠ expected ∧ function = arrows (arguments.take position) (arrow expected codomain)

/-- The type of an application some parts of which may not be known yet. Nothing is
refused before all parts are known, and until then the type is `unknown`. -/
def applyDeferred (function : Ty) (arguments : List Ty) : Except Refusal Ty :=
  if function.Known ∧ ∀ argument ∈ arguments, argument.Known then function.apply arguments
  else .ok unknown

end Ty

end SimplyTyped
