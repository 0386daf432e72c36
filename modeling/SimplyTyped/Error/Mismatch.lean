import SimplyTyped.Core.Render
import SimplyTyped.Ty.Application

/-!
# Type mismatches

What is reported when an application is refused: the application, what was
expected at the argument that could not be consumed, and what was found. `Genuine` says
when such a report is the fault of the program, and of no name that is missing.
-/

set_option autoImplicit false

namespace SimplyTyped

/-- What a place in a program asks for. -/
inductive Expectation where
  /-- Exactly this type. -/
  | type (ty : Ty)
  /-- Some function from `argument`. -/
  | function (argument : Ty)
  deriving DecidableEq

def Expectation.render : Expectation → String
  | type ty => ty.render
  | function argument => "a function taking " ++ argument.render

/-- An expression that does not meet what is expected of it. -/
structure Mismatch where
  expr : Expr
  expected : Expectation
  found : Ty
  deriving DecidableEq

namespace Mismatch

/-- The mismatch in the application `expr` whose arguments, of the given types, were
refused. An argument of the wrong type is held against the domain it met. Where
something is applied that is no function, a function from the argument's type was
expected; a position outside the arguments counts as an unknown type. -/
def ofRefusal (expr : Expr) (arguments : List Ty) : Refusal → Mismatch
  | .argument _ expected found => ⟨expr, .type expected, found⟩
  | .notFunction position found => ⟨expr, .function (arguments.getD position .unknown), found⟩

/-- A genuine mismatch is reported for an application all parts of which are of known type.
The arguments before some argument are consumed, and what is left of the type of the callee
does not take that one. -/
inductive Genuine : Mismatch → Prop where
  | argument {ty callee arguments before domain codomain found after} :
      callee.ty.Known →
      (∀ argument ∈ arguments, argument.ty.Known) →
      arguments.map Expr.ty = before ++ found :: after →
      callee.ty = .arrows before (.arrow domain codomain) →
      domain ≠ found →
      Genuine ⟨.app ty callee arguments, .type domain, found⟩
  | notFunction {ty callee arguments before argument found after} :
      callee.ty.Known →
      (∀ argument ∈ arguments, argument.ty.Known) →
      arguments.map Expr.ty = before ++ argument :: after →
      callee.ty = .arrows before found →
      found.isFunction = false →
      Genuine ⟨.app ty callee arguments, .function argument, found⟩

def render (mismatch : Mismatch) : String :=
  "expected " ++ mismatch.expected.render ++ ", found " ++ mismatch.found.render ++ " in `" ++
    mismatch.expr.render ++ "`"

end Mismatch

end SimplyTyped
