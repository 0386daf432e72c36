import SimplyTyped.Pass.Basic

/-!
# Verification of core programs

Verification derives every type anew from the leaves and holds it against the type
that is stored. Nothing is put off and nothing is mended: the first disagreement ends
it. The arguments of an application are looked at before its callee, so that an
unresolved argument is reported ahead of a parameter that took its unknown type over.
-/

set_option autoImplicit false

namespace SimplyTyped

/-- What is visible at the current point: the names of the bindings so far, and the
parameters of the enclosing lambdas, outermost first. -/
structure Context where
  globals : List Ref
  locals : List Ref
  deriving DecidableEq

namespace Context

def empty : Context := ⟨[], []⟩

/-- A parameter is looked for among the parameters and a global among the globals.
An unresolved reference is never visible. -/
def Sees (context : Context) (ref : Ref) : Prop :=
  match ref.scope with
  | .unresolved => False
  | .param => ref ∈ context.locals
  | .global => ref ∈ context.globals

instance (context : Context) (ref : Ref) : Decidable (context.Sees ref) := by
  unfold Sees
  split <;> infer_instance

def addGlobal (name : Ref) (context : Context) : Context :=
  { context with globals := context.globals ++ [name] }

def enter (params : List Ref) (context : Context) : Context :=
  { context with locals := context.locals ++ params }

/-- Drops the parameters that were entered after there were `depth`. -/
def leave (depth : Nat) (context : Context) : Context :=
  { context with locals := context.locals.take depth }

end Context

def Context.typeOf (context : Context) (ref : Ref) : Except Error Ty :=
  if ref.IsUnresolved then .error (.undefined ref)
  else if ¬ ref.ty.Known then .error (.defect (.unknownType ref))
  else if ¬ context.Sees ref then .error (.defect (.unbound ref))
  else .ok ref.ty

namespace Expr

/-- The type of an application, derived from the types of its parts. -/
def deriveApplication (ty : Ty) (callee : Expr) (arguments : List Expr)
    (argumentTys : List Ty) (calleeTy : Ty) : Except Error Ty :=
  match calleeTy.apply argumentTys with
  | .error refusal => .error (.mismatch (.ofRefusal (app ty callee arguments) argumentTys refusal))
  | .ok derived =>
      if derived = ty then .ok derived
      else .error (.defect (.applicationMistyped (app ty callee arguments) derived))

/-- The type of a lambda, derived from the type of its body. -/
def deriveLambda (ty : Ty) (params : List Ref) (bodyTy : Ty) : Except Error Ty :=
  let derived := Ty.arrows (params.map (·.ty)) bodyTy
  if derived = ty then .ok derived
  else .error (.defect (.lambdaMistyped ty derived))

/-- What is promised of the parameters of a lambda: that there are some, that all have
the scope of a parameter, and that the types of all are known. -/
def checkParams (params : List Ref) : Except Error Unit :=
  if params.isEmpty then .error (.defect .emptyLambda)
  else
    match params.find? (·.scope ≠ .param) with
    | some param => .error (.defect (.paramNotLocal param))
    | none =>
        match params.find? (¬ ·.ty.Known) with
        | some param => .error (.defect (.paramUnknown param))
        | none => .ok ()

mutual

/-- The derived type of an expression. A failure inside a lambda leaves its
parameters visible. -/
def verify : Expr → Pass Context Ty
  | var ref => PassT.step fun context => (context.typeOf ref, context)
  | int _ => return .int
  | bool _ => return .bool
  | app ty callee arguments =>
      if arguments.isEmpty then
        throw (.defect (.emptyApplication (app ty callee arguments)))
      else do
        let argumentTys ← verifyAll arguments
        let calleeTy ← callee.verify
        PassT.lift (deriveApplication ty callee arguments argumentTys calleeTy)
  | lambda ty params body => do
      PassT.lift (checkParams params)
      let depth ← PassT.gets (·.locals.length)
      PassT.modify (Context.enter params)
      let bodyTy ← body.verify
      PassT.modify (Context.leave depth)
      PassT.lift (deriveLambda ty params bodyTy)

def verifyAll : List Expr → Pass Context (List Ty)
  | [] => return []
  | expr :: exprs => do
      let ty ← expr.verify
      let tys ← verifyAll exprs
      return ty :: tys

end

end Expr

namespace Binding

/-- What is promised of a binding whose value has the type `derived`. -/
def check (binding : Binding) (derived : Ty) : Except Error Unit :=
  if binding.name.scope ≠ .global then .error (.defect (.bindingNotGlobal binding.name))
  else if binding.name.ty ≠ derived then
    .error (.defect (.bindingMistyped binding.name derived))
  else .ok ()

def verify (binding : Binding) : Pass Context Unit := do
  let derived ← binding.value.verify
  PassT.lift (binding.check derived)
  PassT.modify (Context.addGlobal binding.name)

end Binding

namespace Program

/-- Verifies the bindings in order and then the entry, whose derived type it yields. -/
def verifyPass (program : Program) : Pass Context Ty := do
  let _ ← PassT.traverse Binding.verify program.bindings
  program.entry.verify

/-- Verifies a program by itself and hands it back. -/
def verify (program : Program) : Except Error Program :=
  (program.verifyPass.evaluate .empty).map fun _ => program

end Program

end SimplyTyped
