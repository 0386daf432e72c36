import SimplyTyped.Core.Expr
import SimplyTyped.Source.Tree

/-!
# Nameless programs

Binding structure by itself: a use points at the binder that it belongs to, types are
left out, and names serve only to tell binders and free names apart. Source trees and
core programs both have a nameless form.
-/

set_option autoImplicit false

namespace SimplyTyped

/-- A term whose uses point at their binders. -/
inductive Nameless where
  /-- The parameter at `position` of the lambda that is `level` lambdas further out than
  the innermost one. -/
  | param (level position : Nat)
  /-- The binding that is `distance` bindings before the latest one in sight. -/
  | global (distance : Nat)
  | free (name : Name)
  /-- A use that claims a binder where there is none. -/
  | dangling
  | int (value : Int64)
  | bool (value : Bool)
  | app (callee : Nameless) (arguments : List Nameless)
  | lambda (params : List Name) (body : Nameless)

/-- Top-level bindings, each with its name, and the entry. -/
structure NamelessProgram where
  bindings : List (Name × Nameless)
  entry : Nameless

namespace Nameless

/-- The nearest parameter that is equal to `key`, as level and position. The lists of
parameters stand innermost first. -/
def findParam? {κ : Type} [DecidableEq κ] (key : κ) : List (List κ) → Option (Nat × Nat)
  | [] => none
  | params :: outer =>
      if key ∈ params then some (0, params.idxOf key)
      else (findParam? key outer).map fun found => (found.1 + 1, found.2)

/-- The pointer from a use of `key` to its binder, if it has one. Parameters come
before globals, which stand latest first. -/
def pointer? {κ : Type} [DecidableEq κ] (params : List (List κ)) (globals : List κ) (key : κ) :
    Option Nameless :=
  match findParam? key params with
  | some (level, position) => some (param level position)
  | none => if key ∈ globals then some (global (globals.idxOf key)) else none

end Nameless

/-! ## Source trees

The `let`s at the root are the bindings. Any other `let` is a lambda over its name,
applied to its value. -/

namespace Tree

mutual

/-- The nameless form of a tree away from the root. A name belongs to its nearest
declaration among `params`, else among `globals`, and is free otherwise. -/
def nameless (params : List (List Name)) (globals : List Name) : Tree → Nameless
  | var name => (Nameless.pointer? params globals name).getD (.free name)
  | int value => .int value
  | bool value => .bool value
  | app callee arguments =>
      .app (callee.nameless params globals) (namelessAll params globals arguments)
  | lambda bound body =>
      .lambda (bound.map (·.name)) (body.nameless (bound.map (·.name) :: params) globals)
  | letIn name value body =>
      .app (.lambda [name] (body.nameless ([name] :: params) globals))
        [value.nameless params globals]

def namelessAll (params : List (List Name)) (globals : List Name) : List Tree → List Nameless
  | [] => []
  | tree :: trees => tree.nameless params globals :: namelessAll params globals trees

end

/-- The nameless form of a tree at the root, where `globals` are bound. -/
def namelessProgram (globals : List Name) : Tree → NamelessProgram
  | letIn name value body =>
      let rest := body.namelessProgram (name :: globals)
      ⟨(name, value.nameless [] globals) :: rest.bindings, rest.entry⟩
  | tree => ⟨[], tree.nameless [] globals⟩

end Tree

/-! ## Core programs

A use belongs to the nearest binder that is the very same reference, in all four parts.
An unresolved reference is a free name. -/

namespace Expr

mutual

/-- The nameless form of an expression. -/
def nameless (params : List (List Ref)) (globals : List Ref) : Expr → Nameless
  | var ref =>
      if ref.IsUnresolved then .free ref.name
      else (Nameless.pointer? params globals ref).getD .dangling
  | int value => .int value
  | bool value => .bool value
  | app _ callee arguments =>
      .app (callee.nameless params globals) (namelessAll params globals arguments)
  | lambda _ bound body =>
      .lambda (bound.map (·.name)) (body.nameless (bound :: params) globals)

def namelessAll (params : List (List Ref)) (globals : List Ref) : List Expr → List Nameless
  | [] => []
  | expr :: exprs => expr.nameless params globals :: namelessAll params globals exprs

end

end Expr

/-- The nameless form of bindings and of the entry after them, where `globals` are bound. -/
def namelessFrom (globals : List Ref) (entry : Expr) : List Binding → NamelessProgram
  | [] => ⟨[], entry.nameless [] globals⟩
  | binding :: bindings =>
      let rest := namelessFrom (binding.name :: globals) entry bindings
      ⟨(binding.name.name, binding.value.nameless [] globals) :: rest.bindings, rest.entry⟩

def Program.nameless (program : Program) : NamelessProgram :=
  namelessFrom [] program.entry program.bindings

end SimplyTyped
