import SimplyTyped.Core.Expr

/-!
# The text of core programs

The text shows every reference in full and no annotation of a node. A lambda body
extends as far to the right as it can, so a lambda is parenthesised as a callee,
and so is every argument that is no atom.
-/

set_option autoImplicit false

namespace SimplyTyped

/-- References one after the other, with a blank between two of them. -/
def renderParams : List Ref → String
  | [] => ""
  | [param] => param.render
  | param :: params => param.render ++ " " ++ renderParams params

namespace Expr

mutual

def render : Expr → String
  | var ref => ref.render
  | int value => toString value.toInt
  | bool true => "#t"
  | bool false => "#f"
  | app _ callee arguments =>
      (if callee.isLambda then "(" ++ callee.render ++ ")" else callee.render) ++
        renderArguments arguments
  | lambda _ params body => "λ" ++ renderParams params ++ "." ++ body.render

def renderArguments : List Expr → String
  | [] => ""
  | argument :: arguments =>
      " " ++ (if argument.isAtom then argument.render else "(" ++ argument.render ++ ")") ++
        renderArguments arguments

end

end Expr

def Binding.render (binding : Binding) : String :=
  "let " ++ binding.name.render ++ " = " ++ binding.value.render

/-- Bindings one to a line. Each line is ended. -/
def renderBindings : List Binding → String
  | [] => ""
  | binding :: bindings => binding.render ++ "\n" ++ renderBindings bindings

/-- The text of a program: a line for each binding, then the entry, whose line is
not ended. -/
def Program.render (program : Program) : String :=
  renderBindings program.bindings ++ program.entry.render

end SimplyTyped
