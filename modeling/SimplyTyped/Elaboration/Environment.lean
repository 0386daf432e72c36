import SimplyTyped.Pass.Basic

/-!
# The environment of elaboration

The environment tells which reference a name stands for at the current point, and
hands out the index of each new binder. Indices count the binders of a name over the
whole life of the environment, in the order in which they are met, so that no two
binders share a reference. What is visible is a matter of its own: a frame for each
enclosing lambda, and behind them the globals.
-/

set_option autoImplicit false

namespace SimplyTyped

/-- What becomes of a name that has no binder. -/
inductive Policy where
  /-- It is kept as an unresolved reference. -/
  | keep
  /-- It ends elaboration. -/
  | reject
  deriving DecidableEq, Inhabited

/-- Names in scope. The latest comes first everywhere, so that what is bound later
hides what was bound before. -/
structure Environment where
  policy : Policy
  /-- Every name that an index was handed out for, once for each time. -/
  issued : List Name
  /-- The parameters of the enclosing lambdas, innermost lambda first. -/
  frames : List (List Ref)
  globals : List Ref
  deriving DecidableEq

namespace Environment

def empty (policy : Policy) : Environment := ⟨policy, [], [], []⟩

/-- The index that the next binder of a name gets. -/
def nextIndex (environment : Environment) (name : Name) : UInt32 :=
  UInt32.ofNat (environment.issued.count name)

/-- Takes down that one more index of a name is in use. -/
def issue (name : Name) (environment : Environment) : Environment :=
  { environment with issued := name :: environment.issued }

def bindGlobal (name : Name) (ty : Ty) : Pass Environment Ref :=
  PassT.step fun environment =>
    let ref : Ref := ⟨name, environment.nextIndex name, ty, .global⟩
    (.ok ref, { environment.issue name with globals := ref :: environment.globals })

def enter (environment : Environment) : Environment :=
  { environment with frames := [] :: environment.frames }

/-- Closes the innermost frame. Where none is open, nothing happens. -/
def leave (environment : Environment) : Environment :=
  { environment with frames := environment.frames.tail }

def depth (environment : Environment) : Nat :=
  environment.frames.length

/-- Binds a name as a parameter in the innermost frame. Where no frame is open, this
fails; the index counts as used all the same. -/
def bindParam (name : Name) (ty : Ty) : Pass Environment Ref :=
  PassT.step fun environment =>
    let ref : Ref := ⟨name, environment.nextIndex name, ty, .param⟩
    match environment.frames with
    | [] => (.error (.defect (.paramOutsideLambda ref)), environment.issue name)
    | frame :: frames =>
        (.ok ref, { environment.issue name with frames := (ref :: frame) :: frames })

def bindParams : List (Name × Ty) → Pass Environment (List Ref)
  | [] => return []
  | (name, ty) :: params => do
      let ref ← bindParam name ty
      let refs ← bindParams params
      return ref :: refs

/-- All references in scope, those that hide others first. -/
def visible (environment : Environment) : List Ref :=
  environment.frames.flatten ++ environment.globals

def resolve? (environment : Environment) (name : Name) : Option Ref :=
  environment.visible.find? (·.name = name)

/-- The reference that a name becomes. A name without a binder is treated as the
policy says. -/
def lookup (environment : Environment) (name : Name) : Except Error Ref :=
  match environment.resolve? name with
  | some ref => .ok ref
  | none =>
      match environment.policy with
      | .keep => .ok (.unresolved name)
      | .reject => .error (.undefined (.unresolved name))

/-! ## Environments after binders

An environment changes in two ways that do not touch each other: indices are handed out,
and names come into sight. `issueAll` is the first alone. A lambda and a `let` away from the
root do both, and `withParams` is the environment of their body. -/

/-- Takes down that an index of each of the names is in use, from left to right. -/
def issueAll (names : List Name) (environment : Environment) : Environment :=
  { environment with issued := names.reverse ++ environment.issued }

/-- The reference that the next binder of a name as a parameter gets. -/
def paramRef (environment : Environment) (name : Name) (ty : Ty) : Ref :=
  ⟨name, environment.nextIndex name, ty, .param⟩

/-- The references that parameters get, bound from left to right. -/
def paramRefs (environment : Environment) : List (Name × Ty) → List Ref
  | [] => []
  | (name, ty) :: annotations =>
      environment.paramRef name ty :: (environment.issue name).paramRefs annotations

def withParams (environment : Environment) (annotations : List (Name × Ty)) : Environment :=
  { environment.issueAll (annotations.map Prod.fst) with
    frames := (environment.paramRefs annotations).reverse :: environment.frames }

/-- The reference that the next binder of a name at the top level gets. -/
def globalRef (environment : Environment) (name : Name) (ty : Ty) : Ref :=
  ⟨name, environment.nextIndex name, ty, .global⟩

def withGlobal (environment : Environment) (name : Name) (ty : Ty) : Environment :=
  { environment.issue name with
    globals := environment.globalRef name ty :: environment.globals }

end Environment

end SimplyTyped
