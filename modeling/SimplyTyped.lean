import SimplyTyped.Compilation
import SimplyTyped.Core.Annotated
import SimplyTyped.Core.Expr
import SimplyTyped.Core.FailurePoint
import SimplyTyped.Core.FreeRefs
import SimplyTyped.Core.FreeRefs.Session
import SimplyTyped.Core.Legible
import SimplyTyped.Core.Observer
import SimplyTyped.Core.Occurrences
import SimplyTyped.Core.Render
import SimplyTyped.Core.Skeleton
import SimplyTyped.Core.Traversal
import SimplyTyped.Core.Typing
import SimplyTyped.Core.Verification
import SimplyTyped.Elaboration.Basic
import SimplyTyped.Elaboration.Declarations
import SimplyTyped.Elaboration.Environment
import SimplyTyped.Elaboration.FailurePoint
import SimplyTyped.Elaboration.Requests
import SimplyTyped.Elaboration.Session
import SimplyTyped.Error.Basic
import SimplyTyped.Error.Code
import SimplyTyped.Error.Mismatch
import SimplyTyped.Name
import SimplyTyped.Nameless
import SimplyTyped.Pass.Basic
import SimplyTyped.Pass.Lemmas
import SimplyTyped.Pass.Reach
import SimplyTyped.Pass.Script
import SimplyTyped.Pass.Trace
import SimplyTyped.Pass.Turns
import SimplyTyped.Precedence
import SimplyTyped.Proofs.Compilation
import SimplyTyped.Proofs.Core.Dependence
import SimplyTyped.Proofs.Core.FailurePoint
import SimplyTyped.Proofs.Core.Flatten
import SimplyTyped.Proofs.Core.FreeRefs
import SimplyTyped.Proofs.Core.FreeRefs.Session
import SimplyTyped.Proofs.Core.Outcome
import SimplyTyped.Proofs.Core.Render
import SimplyTyped.Proofs.Core.Skeleton
import SimplyTyped.Proofs.Core.Traversal
import SimplyTyped.Proofs.Core.Verification
import SimplyTyped.Proofs.Core.Visibility
import SimplyTyped.Proofs.Elaboration.Annotation
import SimplyTyped.Proofs.Elaboration.BindingStructure
import SimplyTyped.Proofs.Elaboration.Brackets
import SimplyTyped.Proofs.Elaboration.Declarations
import SimplyTyped.Proofs.Elaboration.Derivation
import SimplyTyped.Proofs.Elaboration.Environment
import SimplyTyped.Proofs.Elaboration.FailurePoint
import SimplyTyped.Proofs.Elaboration.FreeNames
import SimplyTyped.Proofs.Elaboration.Indices
import SimplyTyped.Proofs.Elaboration.Policy
import SimplyTyped.Proofs.Elaboration.Precision
import SimplyTyped.Proofs.Elaboration.Typing
import SimplyTyped.Proofs.Elaboration.Verification
import SimplyTyped.Proofs.Error.Mismatch
import SimplyTyped.Proofs.Pass.FailFast
import SimplyTyped.Proofs.Pass.Laws
import SimplyTyped.Proofs.Pass.Trace
import SimplyTyped.Proofs.Pass.Turns
import SimplyTyped.Proofs.Precedence
import SimplyTyped.Proofs.Renaming
import SimplyTyped.Proofs.Ty.Application
import SimplyTyped.Proofs.Ty.Chain
import SimplyTyped.Proofs.Ty.Render
import SimplyTyped.Ref
import SimplyTyped.Renaming
import SimplyTyped.SortedSet
import SimplyTyped.Source.Tree
import SimplyTyped.Source.Typing
import SimplyTyped.Text.Quoted
import SimplyTyped.Text.ReadBack
import SimplyTyped.Ty.Application
import SimplyTyped.Ty.Basic
import SimplyTyped.Ty.Order
