import SimplyTyped.Core.Expr

/-!
# Legible programs

What a program keeps to whose text is meant to be read: a name is spelled with letters, so
that it ends where the digits of its index begin, and an application shows an argument.
-/

set_option autoImplicit false

namespace SimplyTyped

/-- A name spelled with ASCII letters and nothing else. Its length plays no part. -/
def Name.IsWord (name : Name) : Prop :=
  ∀ c ∈ name.text.toList, c.isAlpha = true

instance (name : Name) : Decidable name.IsWord :=
  List.decidableBAll (fun c : Char => c.isAlpha = true) name.text.toList

namespace Expr

mutual

/-- Every name in the expression is a word, and every application has an argument. -/
def Legible : Expr → Prop
  | var ref => ref.name.IsWord
  | int _ | bool _ => True
  | app _ callee arguments => arguments ≠ [] ∧ callee.Legible ∧ AllLegible arguments
  | lambda _ params body => (∀ param ∈ params, param.name.IsWord) ∧ body.Legible

def AllLegible : List Expr → Prop
  | [] => True
  | expr :: exprs => expr.Legible ∧ AllLegible exprs

end

mutual

instance decidableLegible : (expr : Expr) → Decidable expr.Legible
  | var ref => inferInstanceAs (Decidable ref.name.IsWord)
  | int _ | bool _ => .isTrue trivial
  | app _ callee arguments =>
      have := decidableLegible callee
      have := decidableAllLegible arguments
      inferInstanceAs (Decidable (arguments ≠ [] ∧ callee.Legible ∧ AllLegible arguments))
  | lambda _ params body =>
      have := decidableLegible body
      inferInstanceAs (Decidable ((∀ param ∈ params, param.name.IsWord) ∧ body.Legible))

instance decidableAllLegible : (exprs : List Expr) → Decidable (AllLegible exprs)
  | [] => .isTrue trivial
  | expr :: exprs =>
      have := decidableLegible expr
      have := decidableAllLegible exprs
      inferInstanceAs (Decidable (expr.Legible ∧ AllLegible exprs))

end

end Expr

/-- The name and the value of every binding are legible, and so is the entry. -/
def Program.Legible (program : Program) : Prop :=
  (∀ binding ∈ program.bindings, binding.name.name.IsWord ∧ binding.value.Legible) ∧
    program.entry.Legible

instance (program : Program) : Decidable program.Legible :=
  inferInstanceAs (Decidable (_ ∧ _))

end SimplyTyped
