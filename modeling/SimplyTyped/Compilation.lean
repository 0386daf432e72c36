import SimplyTyped.Core.FreeRefs
import SimplyTyped.Core.Verification
import SimplyTyped.Elaboration.Basic

/-!
# Compilation

A source tree is elaborated, its free references are collected, and the program is
verified if the options ask for it. The first error ends it all.
-/

set_option autoImplicit false

namespace SimplyTyped

/-- How the compiler itself was built. A debug build checks what a release build takes for
granted. -/
inductive Build where
  | debug
  | release
  deriving DecidableEq, Inhabited

/-- When programs are verified. Verification also reports faults of the program that
is compiled, so an open program can compile where it is left out. -/
inductive Verification where
  | always
  | inDebugBuilds
  | never
  deriving DecidableEq, Inhabited

def Verification.enabled (verification : Verification) (build : Build := .debug) : Bool :=
  match verification with
  | always => true
  | inDebugBuilds => build = .debug
  | never => false

structure CompileOptions where
  policy : Policy
  verification : Verification
  deriving DecidableEq

/-- A program and the references that elaboration left unbound in it. -/
structure Compiled where
  program : Program
  free : SortedSet Ref
  deriving DecidableEq

/-- Compiles what was read. Where reading failed, nothing else is done. -/
def compile (source : Except ParseError Tree) (options : CompileOptions)
    (build : Build := .debug) : Except Error Compiled := do
  let tree ← source.mapError .parse
  let program ← tree.toProgram options.policy
  let free ← program.freeRefs
  let program ← if options.verification.enabled build then program.verify else pure program
  return ⟨program, free⟩

/-- There is no lower form to bring a program into, so every program is refused. -/
def Program.lower (_ : Program) : Except Error Program :=
  .error (.generic "lowering to a codegen-ready form is not implemented")

end SimplyTyped
