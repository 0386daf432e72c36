import SimplyTyped.Elaboration.Environment
import SimplyTyped.Source.Tree

/-!
# Renaming

Applying a function on names to everything that holds names. Indices, types, scopes and
structure stay as they are.
-/

set_option autoImplicit false

namespace SimplyTyped

def Ref.rename (rename : Name → Name) (ref : Ref) : Ref :=
  { ref with name := rename ref.name }

def Param.rename (rename : Name → Name) (param : Param) : Param :=
  { param with name := rename param.name }

namespace Tree

mutual

def rename (f : Name → Name) : Tree → Tree
  | var name => var (f name)
  | int value => int value
  | bool value => bool value
  | app callee arguments => app (callee.rename f) (renameAll f arguments)
  | lambda params body => lambda (params.map (Param.rename f)) (body.rename f)
  | letIn name value body => letIn (f name) (value.rename f) (body.rename f)

def renameAll (f : Name → Name) : List Tree → List Tree
  | [] => []
  | tree :: trees => tree.rename f :: renameAll f trees

end

end Tree

namespace Expr

mutual

def rename (f : Name → Name) : Expr → Expr
  | var ref => var (ref.rename f)
  | int value => int value
  | bool value => bool value
  | app ty callee arguments => app ty (callee.rename f) (renameAll f arguments)
  | lambda ty params body => lambda ty (params.map (Ref.rename f)) (body.rename f)

def renameAll (f : Name → Name) : List Expr → List Expr
  | [] => []
  | expr :: exprs => expr.rename f :: renameAll f exprs

end

theorem renameAll_eq_map (f : Name → Name) (exprs : List Expr) :
    renameAll f exprs = exprs.map (rename f) := by
  induction exprs with
  | nil => rfl
  | cons expr exprs ih => rw [renameAll, List.map_cons, ih]

end Expr

def Program.rename (f : Name → Name) (program : Program) : Program :=
  ⟨program.bindings.map fun binding => ⟨binding.name.rename f, binding.value.rename f⟩,
    program.entry.rename f⟩

def Mismatch.rename (f : Name → Name) (mismatch : Mismatch) : Mismatch :=
  { mismatch with expr := mismatch.expr.rename f }

def Malformed.rename (f : Name → Name) : Malformed → Malformed
  | emptyApplication => emptyApplication
  | emptyLambda => emptyLambda
  | duplicateParam name => duplicateParam (f name)
  | unannotatedParam name => unannotatedParam (f name)
  | stated message => stated message

def Defect.rename (f : Name → Name) : Defect → Defect
  | paramOutsideLambda param => paramOutsideLambda (param.rename f)
  | letRefusesValue name => letRefusesValue (f name)
  | bindingNotGlobal name => bindingNotGlobal (name.rename f)
  | bindingMistyped name derived => bindingMistyped (name.rename f) derived
  | unknownType ref => unknownType (ref.rename f)
  | unbound ref => unbound (ref.rename f)
  | emptyApplication expr => emptyApplication (expr.rename f)
  | applicationMistyped expr derived => applicationMistyped (expr.rename f) derived
  | emptyLambda => emptyLambda
  | paramNotLocal param => paramNotLocal (param.rename f)
  | paramUnknown param => paramUnknown (param.rename f)
  | lambdaMistyped ty derived => lambdaMistyped ty derived
  | stated message => stated message

/-- The same kind of error, with the same types, about the renamed parts of the program. What
is given by a message alone holds no names. -/
def Error.rename (f : Name → Name) : Error → Error
  | generic message => generic message
  | defect cause => defect (cause.rename f)
  | parse cause => parse cause
  | malformed cause => malformed (cause.rename f)
  | undefined ref => undefined (ref.rename f)
  | mismatch cause => mismatch (cause.rename f)

def Environment.rename (f : Name → Name) (environment : Environment) : Environment :=
  { environment with
    issued := environment.issued.map f
    frames := environment.frames.map (List.map (Ref.rename f))
    globals := environment.globals.map (Ref.rename f) }

end SimplyTyped
