import SimplyTyped.Core.FreeRefs
import SimplyTyped.Core.Occurrences

/-!
# Steps of the analysis of free references

Everything that the analysis can be shown, as data, and what it finds then. A program can
be shown to it as a pass or as a visit.
-/

set_option autoImplicit false

namespace SimplyTyped.FreeRefs

/-- One thing to show to the analysis. -/
inductive Step where
  | program (program : Program)
  | visitProgram (program : Program)
  | visitBinding (binding : Binding)
  | visitExpr (expr : Expr)
  | visitLambda (params : List Ref) (body : Expr)
  | use (ref : Ref)
  deriving DecidableEq

def Step.pass : Step → Pass FreeRefs Unit
  | .program shown => FreeRefs.pass shown
  | .visitProgram shown => PassT.modify (visitor.visitProgram shown)
  | .visitBinding binding => PassT.modify (visitor.visitBinding binding)
  | .visitExpr expr => PassT.modify (visitor.visitExpr expr)
  | .visitLambda params body => PassT.modify (visitor.visitLambda params body)
  | .use ref => PassT.modify (FreeRefs.use ref)

/-! ## What the steps come to

The effect of every step by the free uses of what it shows, without a traversal and without
a parameter that is bound for a while. -/

/-- What the analysis knows between two steps: the names that are bound at the top level, and
the references that were found free. -/
structure Findings where
  globals : List Ref
  free : SortedSet Ref
  deriving DecidableEq

namespace Findings

def empty : Findings := ⟨[], ∅⟩

/-- The state of the analysis between two steps. No parameter is bound there. -/
def state (findings : Findings) : FreeRefs :=
  ⟨findings.globals, [], findings.free⟩

/-- A use of a global that is bound already is not free. What was found free stays so. -/
def addUses (uses : List Ref) (findings : Findings) : Findings :=
  { findings with free := findings.free ∪ .ofList (uses.filter (· ∉ findings.globals)) }

def addBinding (binding : Binding) (findings : Findings) : Findings :=
  let findings := findings.addUses binding.value.freeUses
  { findings with globals := binding.name :: findings.globals }

/-- The bindings of a program count in order, and then its entry. -/
def addProgram (program : Program) (findings : Findings) : Findings :=
  (program.bindings.foldl (fun findings binding => findings.addBinding binding) findings).addUses
    program.entry.freeUses

/-- It makes no difference whether a program is shown as a pass or as a visit. -/
def add (step : Step) (findings : Findings) : Findings :=
  match step with
  | .program shown | .visitProgram shown => findings.addProgram shown
  | .visitBinding binding => findings.addBinding binding
  | .visitExpr expr => findings.addUses expr.freeUses
  | .visitLambda params body => findings.addUses (body.freeUses.filter (· ∉ params))
  | .use ref => findings.addUses [ref]

/-- The findings after each of the steps. -/
def along (findings : Findings) : List Step → List Findings
  | [] => []
  | step :: steps =>
      let next := findings.add step
      next :: next.along steps

end Findings

end SimplyTyped.FreeRefs
