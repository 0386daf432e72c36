import SimplyTyped.Core.Legible
import SimplyTyped.Core.Render
import SimplyTyped.Core.Skeleton

/-!
# Flat programs

Flattening keeps the text of a program: the text shows no annotation, and an application that
is a callee is followed by further arguments as if they were its own. What flattening leaves
of a legible program is flat: annotations are unknown, and no callee is an application.
-/

set_option autoImplicit false

namespace SimplyTyped

namespace Expr

/-! ## The text of the flattened expression -/

theorem isAtom_extend (arguments : List Expr) (callee : Expr) :
    (callee.extend arguments).isAtom = false := by
  cases callee <;> rfl

theorem isLambda_extend (arguments : List Expr) (callee : Expr) :
    (callee.extend arguments).isLambda = false := by
  cases callee <;> rfl

theorem isAtom_flatten (expr : Expr) : expr.flatten.isAtom = expr.isAtom := by
  cases expr with
  | app => exact isAtom_extend _ _
  | _ => rfl

theorem isLambda_flatten (expr : Expr) : expr.flatten.isLambda = expr.isLambda := by
  cases expr with
  | app => exact isLambda_extend _ _
  | _ => rfl

theorem renderArguments_append (earlier later : List Expr) :
    renderArguments (earlier ++ later) = renderArguments earlier ++ renderArguments later := by
  induction earlier with
  | nil => simp [renderArguments]
  | cons argument earlier ih =>
      simp only [List.cons_append, renderArguments, ih, String.append_assoc]

theorem render_app (ty : Ty) (callee : Expr) (arguments : List Expr) :
    (app ty callee arguments).render =
      (if callee.isLambda then "(" ++ callee.render ++ ")" else callee.render) ++
        renderArguments arguments := by
  rw [render]

/-- Further arguments follow the text of a callee, whether or not they become its own. -/
theorem render_extend (ty : Ty) (arguments : List Expr) (callee : Expr) :
    (callee.extend arguments).render = (app ty callee arguments).render := by
  cases callee with
  | app =>
      rw [extend, render_app, render_app, renderArguments_append, ← String.append_assoc]
      rfl
  | var | int | bool | lambda =>
      exact (render_app .unknown _ arguments).trans (render_app ty _ arguments).symm

mutual

theorem render_flatten (expr : Expr) : expr.flatten.render = expr.render := by
  cases expr with
  | var ref => rfl
  | int value => rfl
  | bool value => rfl
  | app ty callee arguments =>
      rw [flatten, render_extend ty, render_app, render_app, isLambda_flatten,
        render_flatten callee, renderArguments_flattenAll arguments]
  | lambda ty params body => rw [flatten, render, render, render_flatten body]

theorem renderArguments_flattenAll (exprs : List Expr) :
    renderArguments (flattenAll exprs) = renderArguments exprs := by
  cases exprs with
  | nil => rfl
  | cons expr exprs =>
      rw [flattenAll, renderArguments, renderArguments, isAtom_flatten, render_flatten expr,
        renderArguments_flattenAll exprs]

end

/-! ## Flat expressions -/

/-- An expression that is legible, has no known annotation, and in which no callee is an
application. -/
inductive Flat : Expr → Prop where
  | var {ref : Ref} : ref.name.IsWord → Flat (.var ref)
  | int {value : Int64} : Flat (.int value)
  | bool {value : Bool} : Flat (.bool value)
  | app {callee : Expr} {arguments : List Expr} :
      Flat callee → callee.isAtom = true ∨ callee.isLambda = true →
      arguments ≠ [] → (∀ argument ∈ arguments, Flat argument) →
      Flat (.app .unknown callee arguments)
  | lambda {params : List Ref} {body : Expr} :
      (∀ param ∈ params, param.name.IsWord) → Flat body → Flat (.lambda .unknown params body)

theorem Flat.extend {callee : Expr} {arguments : List Expr} (flat : Flat callee)
    (some : arguments ≠ []) (argumentsFlat : ∀ argument ∈ arguments, Flat argument) :
    Flat (callee.extend arguments) := by
  cases flat with
  | var word => exact .app (.var word) (.inl rfl) some argumentsFlat
  | int => exact .app .int (.inl rfl) some argumentsFlat
  | bool => exact .app .bool (.inl rfl) some argumentsFlat
  | lambda words body => exact .app (.lambda words body) (.inr rfl) some argumentsFlat
  | app callee head _ earlier =>
      refine .app callee head (by simp [some]) fun argument member => ?_
      exact (List.mem_append.mp member).elim (earlier argument) (argumentsFlat argument)

mutual

theorem Legible.flat {expr : Expr} (legible : expr.Legible) : Flat expr.flatten := by
  cases expr with
  | var ref => exact .var legible
  | int value => exact .int
  | bool value => exact .bool
  | app ty callee arguments =>
      obtain ⟨some, callee, arguments⟩ := legible
      exact callee.flat.extend (by simpa [flattenAll_eq_map] using some) arguments.flat
  | lambda ty params body => exact .lambda legible.1 legible.2.flat

theorem AllLegible.flat {exprs : List Expr} (legible : AllLegible exprs) :
    ∀ expr ∈ flattenAll exprs, Flat expr := by
  cases exprs with
  | nil => nofun
  | cons expr exprs =>
      intro flattened member
      rcases List.mem_cons.mp member with rfl | member
      · exact legible.1.flat
      · exact legible.2.flat flattened member

end

end Expr

namespace Program

theorem render_flatten (program : Program) : program.flatten.render = program.render := by
  obtain ⟨bindings, entry⟩ := program
  have lines : renderBindings (flatten ⟨bindings, entry⟩).bindings = renderBindings bindings := by
    induction bindings with
    | nil => rfl
    | cons binding bindings ih =>
        change Binding.render _ ++ "\n" ++ renderBindings (flatten ⟨bindings, entry⟩).bindings = _
        rw [ih, Binding.render, Expr.render_flatten]
        rfl
  rw [render, render, lines, ← Expr.render_flatten entry]
  rfl

/-- Names are words, and values and entry are flat. -/
def Flat (program : Program) : Prop :=
  (∀ binding ∈ program.bindings, binding.name.name.IsWord ∧ binding.value.Flat) ∧
    program.entry.Flat

theorem Legible.flat {program : Program} (legible : program.Legible) : program.flatten.Flat := by
  refine ⟨fun flattened member => ?_, legible.2.flat⟩
  obtain ⟨binding, found, rfl⟩ := List.mem_map.mp member
  obtain ⟨word, value⟩ := legible.1 binding found
  exact ⟨word, value.flat⟩

end Program

end SimplyTyped
