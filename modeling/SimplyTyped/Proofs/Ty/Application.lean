import SimplyTyped.Ty.Application

/-!
# When a type takes its arguments

A function type takes arguments exactly when it is the curried type from them to the
result. A refusal tells which argument is the first that what is left does not take. A
deferred application is checked exactly where everything is known.
-/

set_option autoImplicit false

namespace SimplyTyped.Ty

theorem applyFrom_eq_ok_iff {position : Nat} {function result : Ty} {arguments : List Ty} :
    function.applyFrom position arguments = .ok result ↔ function = arrows arguments result := by
  induction arguments generalizing position function with
  | nil => simp [applyFrom]
  | cons argument arguments ih =>
      cases function with
      | arrow domain codomain =>
          by_cases same : domain = argument
          · simp [applyFrom, same, ih]
          · simp [applyFrom, same]
      | _ => simp [applyFrom]

theorem apply_eq_ok_iff {function result : Ty} {arguments : List Ty} :
    function.apply arguments = .ok result ↔ function = arrows arguments result :=
  applyFrom_eq_ok_iff

/-- Arguments that are consumed can be set aside. -/
theorem applyFrom_append (position : Nat) (rest : Ty) (before after : List Ty) :
    (arrows before rest).applyFrom position (before ++ after) =
      rest.applyFrom (position + before.length) after := by
  induction before generalizing position with
  | nil => rfl
  | cons argument before ih =>
      rw [arrows_cons, List.cons_append, applyFrom, if_pos rfl, ih, List.length_cons]
      congr 1
      omega

/-- A refusal is about the first argument that could not be consumed: those before it are, and
what is left of the type does not take it. -/
theorem applyFrom_eq_error_iff {position : Nat} {function : Ty} {arguments : List Ty}
    {refusal : Refusal} :
    function.applyFrom position arguments = .error refusal ↔
      ∃ before found after rest, arguments = before ++ found :: after ∧
        function = arrows before rest ∧
        ((∃ domain codomain, rest = arrow domain codomain ∧ domain ≠ found ∧
            refusal = .argument (position + before.length) domain found) ∨
          rest.isFunction = false ∧
            refusal = .notFunction (position + before.length) rest) := by
  constructor
  · intro refused
    induction arguments generalizing position function with
    | nil =>
        rw [applyFrom] at refused
        cases refused
    | cons argument arguments ih =>
        cases function with
        | arrow domain codomain =>
            by_cases same : domain = argument
            · subst same
              rw [applyFrom, if_pos rfl] at refused
              obtain ⟨before, found, after, rest, rfl, rfl, cause⟩ := ih refused
              refine ⟨domain :: before, found, after, rest, rfl, rfl, ?_⟩
              rwa [List.length_cons, Nat.add_comm before.length, ← Nat.add_assoc]
            · rw [applyFrom, if_neg same] at refused
              cases refused
              exact ⟨[], argument, arguments, _, rfl, rfl, .inl ⟨domain, codomain, rfl, same, rfl⟩⟩
        | unknown | int | bool =>
            cases refused
            exact ⟨[], argument, arguments, _, rfl, rfl, .inr ⟨rfl, rfl⟩⟩
  · rintro ⟨before, found, after, rest, rfl, rfl, ⟨domain, codomain, rfl, differs, rfl⟩ |
      ⟨noFunction, rfl⟩⟩
    · rw [applyFrom_append, applyFrom, if_neg differs]
    · rw [applyFrom_append]
      cases rest with
      | arrow => cases noFunction
      | _ => rfl

section positions

variable {function : Ty} {arguments : List Ty} {position : Nat}

/-- The same with the position first, and what stands before it as a part of the arguments. -/
theorem apply_eq_error_iff {refusal : Refusal} :
    function.apply arguments = .error refusal ↔
      ∃ (position : Nat) (inside : position < arguments.length) (rest : Ty),
        function = arrows (arguments.take position) rest ∧
        ((∃ domain codomain, rest = arrow domain codomain ∧ domain ≠ arguments[position] ∧
            refusal = .argument position domain arguments[position]) ∨
          rest.isFunction = false ∧ refusal = .notFunction position rest) := by
  rw [apply, applyFrom_eq_error_iff]
  constructor
  · rintro ⟨before, found, after, rest, rfl, rfl, cause⟩
    exact ⟨before.length, by simp, rest, by simp, by simpa using cause⟩
  · rintro ⟨position, inside, rest, rfl, cause⟩
    have length : (arguments.take position).length = position := by simp; omega
    refine ⟨arguments.take position, arguments[position], arguments.drop (position + 1), rest,
      by simp, rfl, ?_⟩
    simpa [length] using cause

theorem apply_eq_notFunction_iff {found : Ty} :
    function.apply arguments = .error (.notFunction position found) ↔
      function.EndsAt arguments position found := by
  rw [apply_eq_error_iff]
  constructor
  · rintro ⟨_, inside, _, split, ⟨_, _, _, _, same⟩ | ⟨noFunction, same⟩⟩
    · cases same
    · cases same
      exact ⟨inside, split, noFunction⟩
  · rintro ⟨inside, split, noFunction⟩
    exact ⟨position, inside, found, split, .inr ⟨noFunction, rfl⟩⟩

theorem apply_eq_argument_iff {expected found : Ty} :
    function.apply arguments = .error (.argument position expected found) ↔
      function.DiffersAt arguments position expected found := by
  rw [apply_eq_error_iff]
  constructor
  · rintro ⟨_, inside, _, split, ⟨domain, codomain, rfl, differs, same⟩ | ⟨_, same⟩⟩
    · cases same
      exact ⟨inside, codomain, rfl, differs.symm, split⟩
    · cases same
  · rintro ⟨inside, codomain, rfl, differs, split⟩
    exact ⟨position, inside, _, split, .inl ⟨expected, codomain, rfl, differs.symm, rfl⟩⟩

end positions

/-- Applying a type undoes the currying of exactly the arguments that it is applied to, and a
refusal tells exactly where and why this ends. The three ways to end exclude each other, and
there is no other. -/
theorem apply_inverts_arrows (function : Ty) (arguments : List Ty) :
    (∀ result, function.apply arguments = .ok result ↔ function = arrows arguments result) ∧
    (∀ position found, function.apply arguments = .error (.notFunction position found) ↔
      function.EndsAt arguments position found) ∧
    (∀ position expected found,
      function.apply arguments = .error (.argument position expected found) ↔
        function.DiffersAt arguments position expected found) ∧
    let taken := ∃ result, function = arrows arguments result
    let ended := ∃ position rest, function.EndsAt arguments position rest
    let differing := ∃ position expected found, function.DiffersAt arguments position expected found
    (taken ∨ ended ∨ differing) ∧ ¬ (taken ∧ ended) ∧ ¬ (taken ∧ differing) ∧
      ¬ (ended ∧ differing) := by
  refine ⟨fun _ => apply_eq_ok_iff, fun _ _ => apply_eq_notFunction_iff,
    fun _ _ _ => apply_eq_argument_iff, ?_⟩
  -- Each way to end is an outcome of the application, and there is one outcome.
  simp only [← apply_eq_ok_iff, ← apply_eq_notFunction_iff, ← apply_eq_argument_iff]
  cases function.apply arguments with
  | ok result => simp
  | error refusal => cases refusal <;> simp

theorem known_arrows {arguments : List Ty} {result : Ty} :
    (arrows arguments result).Known ↔ (∀ argument ∈ arguments, argument.Known) ∧ result.Known := by
  induction arguments with
  | nil => simp
  | cons argument arguments ih => simp [ih, and_assoc]

theorem applyDeferred_of_known {function : Ty} {arguments : List Ty}
    (functionKnown : function.Known) (argumentsKnown : ∀ argument ∈ arguments, argument.Known) :
    function.applyDeferred arguments = function.apply arguments :=
  if_pos ⟨functionKnown, argumentsKnown⟩

theorem applyDeferred_eq_ok_iff {function result : Ty} {arguments : List Ty} :
    function.applyDeferred arguments = .ok result ↔
      if function.Known ∧ ∀ argument ∈ arguments, argument.Known then
        function.apply arguments = .ok result
      else result = .unknown := by
  unfold applyDeferred
  split
  · exact Iff.rfl
  · simp [eq_comm]

theorem applyDeferred_eq_error_iff {function : Ty} {arguments : List Ty} {refusal : Refusal} :
    function.applyDeferred arguments = .error refusal ↔
      function.Known ∧ (∀ argument ∈ arguments, argument.Known) ∧
        function.apply arguments = .error refusal := by
  unfold applyDeferred
  split
  · next known => exact ⟨fun refused => ⟨known.1, known.2, refused⟩, fun refused => refused.2.2⟩
  · next unknown =>
      exact ⟨nofun, fun refused => absurd ⟨refused.1, refused.2.1⟩ unknown⟩

/-- A function of one argument takes an argument of its domain, known or not. -/
theorem applyDeferred_domain (domain codomain : Ty) :
    (arrow domain codomain).applyDeferred [domain] =
      .ok (if domain.Known ∧ codomain.Known then codomain else .unknown) := by
  by_cases known : domain.Known ∧ codomain.Known
  · simp [applyDeferred, known, apply, applyFrom]
  · have partly : ¬ ((arrow domain codomain).Known ∧ ∀ argument ∈ [domain], argument.Known) :=
      fun all => known all.1
    rw [applyDeferred, if_neg partly, if_neg known]

end SimplyTyped.Ty
