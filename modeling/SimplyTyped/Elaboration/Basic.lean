import SimplyTyped.Elaboration.Environment
import SimplyTyped.Source.Tree

/-!
# Elaboration

Elaboration makes a core program of a source tree. It resolves every name, gives
every binder its index and annotates every node. The `let`s at the root become
bindings; any other `let` becomes a lambda that is applied at once. A value is
elaborated before its name is bound, so nothing is recursive.

An application that depends on an unresolved name has an unknown type. Whether it
could be typed is left open: the name itself is what will be reported.
-/

set_option autoImplicit false

namespace SimplyTyped

/-- The names and types of parameters, none of which may be in `seen`. Parameters are
looked at from left to right: each must be new, and annotated with a known type. -/
def Param.annotations (seen : List Name) : List Param → Except Malformed (List (Name × Ty))
  | [] => .ok []
  | param :: params =>
      if param.name ∈ seen then .error (.duplicateParam param.name)
      else
        match param.ty with
        | none => .error (.unannotatedParam param.name)
        | some ty =>
            if ty.Known then
              (annotations (param.name :: seen) params).map ((param.name, ty) :: ·)
            else .error (.unannotatedParam param.name)

/-- The names and types of the parameters of a lambda, of which there must be one. -/
def Param.checkAll (params : List Param) : Except Error (List (Name × Ty)) :=
  if params.isEmpty then .error (.malformed .emptyLambda)
  else (annotations [] params).mapError .malformed

namespace Expr

/-- A lambda annotated as its parameters and its body demand. -/
def abstract (params : List Ref) (body : Expr) : Expr :=
  lambda (Ty.arrows (params.map (·.ty)) body.ty) params body

/-- An application annotated as its parts demand. -/
def applied (callee : Expr) (arguments : List Expr) : Except Error Expr :=
  let argumentTys := arguments.map ty
  match callee.ty.applyDeferred argumentTys with
  | .ok ty => .ok (app ty callee arguments)
  | .error refusal =>
      .error (.mismatch (.ofRefusal (app .unknown callee arguments) argumentTys refusal))

/-- What a `let` away from the root becomes: its body as a function of its name,
applied to its value. -/
def letApplied (name : Name) (param : Ref) (value body : Expr) : Except Error Expr :=
  let function := abstract [param] body
  match function.ty.applyDeferred [value.ty] with
  | .ok ty => .ok (app ty function [value])
  | .error _ => .error (.defect (.letRefusesValue name))

end Expr

namespace Tree

open Environment (bindGlobal bindParam bindParams)

mutual

/-- Elaborates a tree that is not at the root. A failure leaves the frames open that
were open when it happened. -/
def elaborate : Tree → Pass Environment Expr
  | var name => do
      let ref ← PassT.step fun environment => (environment.lookup name, environment)
      return .var ref
  | int value => return .int value
  | bool value => return .bool value
  | app callee arguments =>
      if arguments.isEmpty then throw (.malformed .emptyApplication)
      else do
        let callee ← callee.elaborate
        let arguments ← elaborateAll arguments
        PassT.lift (Expr.applied callee arguments)
  | lambda params body => do
      let annotations ← PassT.lift (Param.checkAll params)
      PassT.modify Environment.enter
      let params ← bindParams annotations
      let body ← body.elaborate
      PassT.modify Environment.leave
      return Expr.abstract params body
  | letIn name value body => do
      let value ← value.elaborate
      PassT.modify Environment.enter
      let param ← bindParam name value.ty
      let body ← body.elaborate
      PassT.modify Environment.leave
      PassT.lift (Expr.letApplied name param value body)

def elaborateAll : List Tree → Pass Environment (List Expr)
  | [] => return []
  | tree :: trees => do
      let expr ← tree.elaborate
      let exprs ← elaborateAll trees
      return expr :: exprs

end

def elaborateLet (name : Name) (value : Tree) : Pass Environment Binding := do
  let value ← value.elaborate
  let name ← bindGlobal name value.ty
  return ⟨name, value⟩

def elaborateProgram (tree : Tree) : Pass Environment Program := do
  let bindings ← PassT.traverse (fun binding => elaborateLet binding.1 binding.2)
    tree.splitLets.1
  let entry ← tree.splitLets.2.elaborate
  return ⟨bindings, entry⟩

/-- The program that a tree stands for by itself. -/
def toProgram (tree : Tree) (policy : Policy) : Except Error Program :=
  tree.elaborateProgram.evaluate (.empty policy)

end Tree

end SimplyTyped
