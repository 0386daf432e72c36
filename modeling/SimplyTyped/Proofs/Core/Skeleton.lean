import SimplyTyped.Core.Skeleton
import SimplyTyped.Proofs.Core.Outcome

/-!
# Verified programs and their skeletons

Verification derives every type without a look at the annotations, so a verified program is
the only one with its skeleton that is verified. All others are refused for a broken promise:
what their annotations say never passes for a fault of the program.
-/

set_option autoImplicit false

namespace SimplyTyped

namespace Expr

theorem erase_eq_var {expr : Expr} {ref : Ref} : expr.erase = var ref ↔ expr = var ref := by
  cases expr <;> simp [erase]

theorem erase_eq_int {expr : Expr} {value : Int64} : expr.erase = int value ↔ expr = int value := by
  cases expr <;> simp [erase]

theorem erase_eq_bool {expr : Expr} {value : Bool} :
    expr.erase = bool value ↔ expr = bool value := by
  cases expr <;> simp [erase]

theorem eq_app_of_erase {expr callee : Expr} {arguments : List Expr}
    (same : expr.erase = app .unknown callee arguments) :
    ∃ ty callee' arguments', expr = app ty callee' arguments' ∧ callee'.erase = callee ∧
      eraseAll arguments' = arguments := by
  cases expr with
  | app ty callee' arguments' =>
      rw [erase, app.injEq] at same
      exact ⟨ty, callee', arguments', rfl, same.2⟩
  | var | int | bool | lambda => simp [erase] at same

theorem eq_lambda_of_erase {expr body : Expr} {params : List Ref}
    (same : expr.erase = lambda .unknown params body) :
    ∃ ty body', expr = lambda ty params body' ∧ body'.erase = body := by
  cases expr with
  | lambda ty params' body' =>
      rw [erase, lambda.injEq] at same
      obtain ⟨-, rfl, sameBody⟩ := same
      exact ⟨ty, body', rfl, sameBody⟩
  | var | int | bool | app => simp [erase] at same

theorem eq_cons_of_eraseAll {exprs tail : List Expr} {head : Expr}
    (same : eraseAll exprs = head :: tail) :
    ∃ head' tail', exprs = head' :: tail' ∧ head'.erase = head ∧ eraseAll tail' = tail := by
  cases exprs with
  | nil => cases same
  | cons head' tail' =>
      rw [eraseAll, List.cons.injEq] at same
      exact ⟨head', tail', rfl, same⟩

end Expr

/-! ## Outcomes that blame no program -/

/-- The outcome is that a promise between passes is broken. -/
def EndsInDefect {α : Type} (outcome : Except Error α) : Prop :=
  ∃ defect, outcome = .error (.defect defect)

theorem EndsInDefect.bind {α β : Type} {outcome : Except Error α} (ends : EndsInDefect outcome)
    (next : α → Except Error β) : EndsInDefect (outcome >>= next) := by
  obtain ⟨defect, rfl⟩ := ends
  exact ⟨defect, rfl⟩

namespace Expr

/-- The types of the parts leave one annotation of an application to choose from. -/
theorem endsInDefect_deriveApplication {stated ty : Ty} (callee : Expr) (arguments : List Expr)
    (argumentTys : List Ty) (drifted : stated ≠ ty) :
    EndsInDefect
      (deriveApplication stated callee arguments argumentTys (.arrows argumentTys ty)) := by
  have applied : (Ty.arrows argumentTys ty).apply argumentTys = .ok ty := Ty.apply_eq_ok_iff.mpr rfl
  refine ⟨.applicationMistyped (app stated callee arguments) ty, ?_⟩
  simp [deriveApplication, applied, drifted.symm]

theorem endsInDefect_deriveLambda {stated bodyTy : Ty} {params : List Ref}
    (drifted : stated ≠ .arrows (params.map (·.ty)) bodyTy) :
    EndsInDefect (deriveLambda stated params bodyTy) := by
  refine ⟨.lambdaMistyped stated (.arrows (params.map (·.ty)) bodyTy), ?_⟩
  simp [deriveLambda, drifted.symm]

mutual

/-- The parts are checked ahead of the whole, and each part that is the one of the well-typed
expression has the type that it has there. So the first annotation that differs is refused. -/
theorem HasType.eq_or_endsInDefect {context : Context} {expr other : Expr} {ty : Ty}
    (typing : HasType context expr ty) (same : other.erase = expr.erase) :
    other = expr ∨ EndsInDefect (other.verify.evaluate context) := by
  cases typing with
  | param | global => exact .inl (erase_eq_var.mp same)
  | int => exact .inl (erase_eq_int.mp same)
  | bool => exact .inl (erase_eq_bool.mp same)
  | @app _ callee arguments argumentTys _ some calleeTyping argumentsTyping =>
      obtain ⟨stated, callee', arguments', rfl, sameCallee, sameArguments⟩ := eq_app_of_erase same
      have some' : arguments' ≠ [] := by
        rintro rfl
        cases arguments with
        | nil => exact some rfl
        | cons => cases sameArguments
      rw [evaluate_verify_app some']
      rcases argumentsTyping.eq_or_endsInDefect sameArguments with rfl | ends
      · rw [argumentsTyping.evaluate_verifyAll]
        rcases calleeTyping.eq_or_endsInDefect sameCallee with rfl | ends
        · rw [calleeTyping.evaluate_verify]
          by_cases right : stated = ty
          · exact .inl (by rw [right])
          · exact .inr (endsInDefect_deriveApplication _ _ _ right)
        · exact .inr (ends.bind _)
      · exact .inr (ends.bind _)
  | @lambda _ params body bodyTy some accepted bodyTyping =>
      obtain ⟨stated, body', rfl, sameBody⟩ := eq_lambda_of_erase same
      rw [evaluate_verify_lambda, checkParams_eq_ok_iff.mpr ⟨some, accepted⟩]
      rcases bodyTyping.eq_or_endsInDefect sameBody with rfl | ends
      · by_cases right : stated = .arrows (params.map (·.ty)) bodyTy
        · exact .inl (by rw [right])
        · refine .inr ?_
          change EndsInDefect (body'.verify.evaluate _ >>= deriveLambda stated params)
          rw [bodyTyping.evaluate_verify]
          exact endsInDefect_deriveLambda right
      · exact .inr (ends.bind _)

theorem HaveTypes.eq_or_endsInDefect {context : Context} {exprs others : List Expr}
    {tys : List Ty} (typing : HaveTypes context exprs tys)
    (same : eraseAll others = eraseAll exprs) :
    others = exprs ∨ EndsInDefect ((verifyAll others).evaluate context) := by
  cases typing with
  | nil =>
      cases others with
      | nil => exact .inl rfl
      | cons => cases same
  | cons headTyping tailTyping =>
      obtain ⟨head, tail, rfl, sameHead, sameTail⟩ := eq_cons_of_eraseAll same
      rw [evaluate_verifyAll_cons]
      rcases headTyping.eq_or_endsInDefect sameHead with rfl | ends
      · rw [headTyping.evaluate_verify]
        rcases tailTyping.eq_or_endsInDefect sameTail with rfl | ends
        · exact .inl rfl
        · exact .inr (ends.bind _)
      · exact .inr (ends.bind _)

end

end Expr

theorem Program.HasType.eq_or_endsInDefect {context : Context} {program other : Program} {ty : Ty}
    (typing : program.HasType context ty) (same : other.erase = program.erase) :
    other = program ∨ EndsInDefect (other.verifyPass.evaluate context) := by
  induction typing generalizing other with
  | entry typing =>
      obtain ⟨bindings, entry⟩ := other
      rw [erase, erase, mk.injEq, List.map_nil, List.map_eq_nil_iff] at same
      obtain ⟨rfl, sameEntry⟩ := same
      rcases typing.eq_or_endsInDefect sameEntry with rfl | ends
      · exact .inl rfl
      · exact .inr ends
  | @binding context binding bindings entry ty global value _ ih =>
      obtain ⟨others, otherEntry⟩ := other
      rw [erase, erase, mk.injEq, List.map_cons, List.map_eq_cons_iff] at same
      obtain ⟨⟨⟨name, drifted⟩, rest, rfl, sameBinding, sameRest⟩, sameEntry⟩ := same
      obtain ⟨rfl, sameValue⟩ := Binding.mk.inj sameBinding
      rw [evaluate_verifyPass_cons]
      rcases value.eq_or_endsInDefect sameValue with rfl | ends
      · have verified : binding.verify.run context = (.ok (), context.addGlobal binding.name) :=
          Binding.run_verify_eq_ok_iff.mpr ⟨global, value, rfl⟩
        rw [Pass.evaluate_eq, verified]
        have sameTail : erase ⟨rest, otherEntry⟩ = erase ⟨bindings, entry⟩ := by
          rw [erase, erase, sameRest, sameEntry]
        rcases ih sameTail with sameTail | ends
        · obtain ⟨rfl, rfl⟩ := mk.inj sameTail
          exact .inl rfl
        · exact .inr ends
      · rw [Binding.evaluate_verify]
        exact .inr ((ends.bind _).bind _)

/-- A verified program is the only one with its skeleton that is verified. However many of the
annotations differ, and wherever they stand, another one is refused for a broken promise, and
for nothing else: neither a type error nor an undefined reference is reported instead. -/
theorem Program.verify_of_erase_eq {program other : Program}
    (verified : program.verify = .ok program) (same : other.erase = program.erase) :
    (other = program → other.verify = .ok other) ∧
      (other ≠ program → ∃ defect, other.verify = .error (.defect defect)) ∧
      (other.verify = .ok other → other = program) := by
  have refused : other ≠ program → EndsInDefect other.verify := by
    intro different
    obtain ⟨typing, -⟩ := verify_eq_ok_iff.mp verified
    obtain ⟨defect, ends⟩ := (typing.eq_or_endsInDefect same).resolve_left different
    exact ⟨defect, by rw [verify, ends]; rfl⟩
  refine ⟨?_, refused, fun accepted => ?_⟩
  · rintro rfl
    exact verified
  · by_cases equal : other = program
    · exact equal
    · obtain ⟨defect, ends⟩ := refused equal
      cases ends.symm.trans accepted

/-- Two annotations that agree with each other and with nothing else do not make up for one
another. -/
theorem Program.verify_of_erase_eq_paired :
    let param : Ref := ⟨⟨"x"⟩, 0, .int, .param⟩
    let name : Ref := ⟨⟨"n"⟩, 0, .int, .global⟩
    let program : Program :=
      ⟨[⟨name, .app .int (.lambda (.arrow .int .int) [param] (.var param)) [.int 1]⟩], .var name⟩
    let drifted : Program :=
      ⟨[⟨name, .app .bool (.lambda (.arrow .int .bool) [param] (.var param)) [.int 1]⟩], .var name⟩
    program.verify = .ok program ∧ drifted.erase = program.erase ∧ drifted ≠ program ∧
      ∃ defect, drifted.verify = .error (.defect defect) := by
  intro param name program drifted
  have verified : program.verify = .ok program := rfl
  have same : drifted.erase = program.erase := rfl
  have different : drifted ≠ program := by decide
  exact ⟨verified, same, different, (verify_of_erase_eq verified same).2.1 different⟩

end SimplyTyped
