/-!
# Types

The types of the language, their texts, and the curried function types built from them.
`Ty.arrows arguments result` is the type of a function of several arguments;
`Ty.result` and `Ty.arity` take it apart again. What is not known in a type can be
filled in later, which makes the type more precise.
-/

set_option autoImplicit false

namespace SimplyTyped

/-- A type. `unknown` stands for a type that is not known yet; it is no type of
its own and unifies with nothing. Two types agree only when they are identical. -/
inductive Ty where
  | unknown
  | int
  | bool
  | arrow (domain codomain : Ty)
  deriving DecidableEq, Repr, Inhabited

namespace Ty

/-- The curried type of a function that takes `arguments` in order and returns
`result`. With no arguments it is `result` itself. -/
def arrows (arguments : List Ty) (result : Ty) : Ty :=
  arguments.foldr arrow result

@[simp] theorem arrows_nil (result : Ty) : arrows [] result = result := rfl

@[simp] theorem arrows_cons (argument : Ty) (arguments : List Ty) (result : Ty) :
    arrows (argument :: arguments) result = arrow argument (arrows arguments result) := rfl

def isFunction : Ty → Bool
  | arrow _ _ => true
  | _ => false

/-- A type is known when `unknown` occurs nowhere in it. -/
def Known : Ty → Prop
  | unknown => False
  | int | bool => True
  | arrow domain codomain => domain.Known ∧ codomain.Known

instance decidableKnown : (ty : Ty) → Decidable ty.Known
  | unknown => .isFalse id
  | int | bool => .isTrue trivial
  | arrow domain codomain =>
      have := decidableKnown domain
      have := decidableKnown codomain
      inferInstanceAs (Decidable (domain.Known ∧ codomain.Known))

@[simp] theorem not_known_unknown : ¬ unknown.Known := id

@[simp] theorem known_int : int.Known := trivial

@[simp] theorem known_bool : bool.Known := trivial

@[simp] theorem known_arrow {domain codomain : Ty} :
    (arrow domain codomain).Known ↔ domain.Known ∧ codomain.Known := Iff.rfl

/-- The end of the chain of arrows. A type that is no function is its own result. -/
def result : Ty → Ty
  | arrow _ codomain => codomain.result
  | ty => ty

/-- The domain of the outermost arrow. A type that is no function stands for its
own argument. -/
def argument : Ty → Ty
  | arrow domain _ => domain
  | ty => ty

/-- The number of arrows in the chain that `result` ends. -/
def arity : Ty → Nat
  | arrow _ codomain => codomain.arity + 1
  | _ => 0

/-- Arrows associate to the right, so only a domain that is itself a function needs
parentheses. -/
def render : Ty → String
  | unknown => "∅"
  | int => "i"
  | bool => "b"
  | arrow domain codomain =>
      if domain.isFunction then "(" ++ domain.render ++ ")→" ++ codomain.render
      else domain.render ++ "→" ++ codomain.render

/-! ## Precision -/

/-- `RefinedBy ty finer` says that `finer` is `ty` with types in place of some of its
unknown types. -/
inductive RefinedBy : Ty → Ty → Prop where
  | unknown {finer} : RefinedBy .unknown finer
  | int : RefinedBy .int .int
  | bool : RefinedBy .bool .bool
  | arrow {domain codomain domain' codomain'} :
      RefinedBy domain domain' → RefinedBy codomain codomain' →
      RefinedBy (.arrow domain codomain) (.arrow domain' codomain')

theorem RefinedBy.refl (ty : Ty) : RefinedBy ty ty := by
  induction ty with
  | unknown => exact .unknown
  | int => exact .int
  | bool => exact .bool
  | arrow _ _ domainIH codomainIH => exact .arrow domainIH codomainIH

/-- A known type is refined by itself alone. -/
theorem RefinedBy.eq_of_known {ty finer : Ty} (refined : RefinedBy ty finer) (known : ty.Known) :
    finer = ty := by
  induction refined with
  | unknown => exact known.elim
  | int => rfl
  | bool => rfl
  | arrow _ _ domainIH codomainIH => rw [domainIH known.1, codomainIH known.2]

end Ty

end SimplyTyped
