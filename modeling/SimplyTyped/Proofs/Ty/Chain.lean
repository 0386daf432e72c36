import SimplyTyped.Proofs.Ty.Application

/-!
# The chain of arrows

A type is the curried type of exactly one list of domains up to its own result, and currying
further arguments in front of it changes the chain in front only. What is known of a curried
type is what is known of its parts.
-/

set_option autoImplicit false

namespace SimplyTyped.Ty

/-- The domains along the chain of arrows that `result` ends. -/
def domains : Ty → List Ty
  | arrow domain codomain => domain :: codomain.domains
  | _ => []

theorem arrows_domains_result (ty : Ty) : arrows ty.domains ty.result = ty := by
  induction ty with
  | unknown | int | bool => rfl
  | arrow domain codomain _ codomainIH => rw [domains, result, arrows_cons, codomainIH]

theorem length_domains (ty : Ty) : ty.domains.length = ty.arity := by
  induction ty with
  | unknown | int | bool => rfl
  | arrow domain codomain _ codomainIH => rw [domains, arity, List.length_cons, codomainIH]

theorem isFunction_result (ty : Ty) : ty.result.isFunction = false := by
  induction ty with
  | unknown | int | bool => rfl
  | arrow domain codomain _ codomainIH => exact codomainIH

theorem domains_eq_nil {ty : Ty} (noFunction : ty.isFunction = false) : ty.domains = [] := by
  cases ty with
  | unknown | int | bool => rfl
  | arrow => cases noFunction

theorem domains_arrows (arguments : List Ty) (result : Ty) :
    (arrows arguments result).domains = arguments ++ result.domains := by
  induction arguments with
  | nil => rfl
  | cons argument arguments ih => rw [arrows_cons, domains, ih, List.cons_append]

theorem result_arrows (arguments : List Ty) (result : Ty) :
    (arrows arguments result).result = result.result := by
  induction arguments with
  | nil => rfl
  | cons argument arguments ih => exact ih

theorem arity_arrows (arguments : List Ty) (result : Ty) :
    (arrows arguments result).arity = arguments.length + result.arity := by
  rw [← length_domains, domains_arrows, List.length_append, length_domains]

/-- A list of domains that leads to the result of a type is the one along its chain. -/
theorem eq_arrows_result_iff {ty : Ty} {arguments : List Ty} :
    ty = arrows arguments ty.result ↔ arguments = ty.domains := by
  constructor
  · intro split
    have chain := congrArg domains split
    rw [domains_arrows, domains_eq_nil (isFunction_result ty), List.append_nil] at chain
    exact chain.symm
  · rintro rfl
    exact (arrows_domains_result ty).symm

/-- Every type is taken apart in one way, into as many domains as it has arrows and a result
that is no function. Arguments that are curried in front of a type, itself a function or not,
add to its arrows, keep its result, and are known with it exactly when all of them are. -/
theorem arrows_decompose :
    (∀ ty : Ty, (∃ domains : List Ty, domains.length = ty.arity ∧
        ∀ others, ty = arrows others ty.result ↔ others = domains) ∧
      ty.result.isFunction = false) ∧
    ∀ (result : Ty) (arguments : List Ty),
      (arrows arguments result).arity = arguments.length + result.arity ∧
      (arrows arguments result).result = result.result ∧
      ((arrows arguments result).Known ↔
        result.Known ∧ ∀ argument ∈ arguments, argument.Known) := by
  constructor
  · intro ty
    exact ⟨⟨ty.domains, length_domains ty, fun _ => eq_arrows_result_iff⟩, isFunction_result ty⟩
  · intro result arguments
    exact ⟨arity_arrows arguments result, result_arrows arguments result,
      known_arrows.trans and_comm⟩

/-- A function that returns a function has the arrows of both. -/
example : (arrows [.int, .arrow .bool .int] (.arrow .bool .unknown)).arity = 3 := by decide

end SimplyTyped.Ty
