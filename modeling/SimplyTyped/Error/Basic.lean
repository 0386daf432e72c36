import SimplyTyped.Error.Mismatch

/-!
# Errors

The ways in which a pass can fail, each with its cause. The wording stands in the
functions called `message` only. A defect is a broken promise between passes, never
the fault of the program that is compiled.
-/

set_option autoImplicit false

namespace SimplyTyped

/-- What is wrong with a source tree before any type is looked at. -/
inductive Malformed where
  | emptyApplication
  | emptyLambda
  | duplicateParam (name : Name)
  | unannotatedParam (name : Name)
  /-- A cause that is given by its message alone. -/
  | stated (message : String)
  deriving DecidableEq

def Malformed.message : Malformed → String
  | emptyApplication => "application needs at least one argument"
  | emptyLambda => "lambda must bind at least one parameter"
  | duplicateParam name => "duplicate parameter `" ++ name.text ++ "` in lambda"
  | unannotatedParam name => "parameter `" ++ name.text ++ "` needs a type annotation"
  | stated message => message

/-- Which promise about a core program is broken. -/
inductive Defect where
  | paramOutsideLambda (param : Ref)
  | letRefusesValue (name : Name)
  | bindingNotGlobal (name : Ref)
  | bindingMistyped (name : Ref) (derived : Ty)
  | unknownType (ref : Ref)
  | unbound (ref : Ref)
  | emptyApplication (expr : Expr)
  | applicationMistyped (expr : Expr) (derived : Ty)
  | emptyLambda
  | paramNotLocal (param : Ref)
  | paramUnknown (param : Ref)
  | lambdaMistyped (ty derived : Ty)
  /-- A cause that is given by its message alone. -/
  | stated (message : String)
  deriving DecidableEq

def Defect.message : Defect → String
  | paramOutsideLambda param => "parameter `" ++ param.render ++ "` bound outside any lambda"
  | letRefusesValue name => "desugared `let " ++ name.text ++ "` rejects its own value"
  | bindingNotGlobal name => "top-level binding `" ++ name.render ++ "` is not global"
  | bindingMistyped name derived =>
      "binding `" ++ name.render ++ "` is annotated " ++ name.ty.render ++
        " but its value has type " ++ derived.render
  | unknownType ref => "resolved reference `" ++ ref.render ++ "` has a placeholder type"
  | unbound ref => "`" ++ ref.render ++ "` is not bound at its use site"
  | emptyApplication expr => "application `" ++ expr.render ++ "` has no arguments"
  | applicationMistyped expr derived =>
      "application `" ++ expr.render ++ "` is annotated " ++ expr.ty.render ++ " but has type " ++
        derived.render
  | emptyLambda => "lambda binds no parameters"
  | paramNotLocal param => "lambda parameter `" ++ param.render ++ "` is not local"
  | paramUnknown param => "lambda parameter `" ++ param.render ++ "` has a placeholder type"
  | lambdaMistyped ty derived =>
      "lambda is annotated " ++ ty.render ++ " but has type " ++ derived.render
  | stated message => message

/-- A failure to read a program at all, at a byte of its text. -/
structure ParseError where
  offset : Nat
  message : String
  deriving DecidableEq

def ParseError.render (error : ParseError) : String :=
  error.message ++ " at offset " ++ toString error.offset

/-- Why a pass failed. -/
inductive Error where
  | generic (message : String)
  | defect (defect : Defect)
  | parse (error : ParseError)
  | malformed (cause : Malformed)
  | undefined (ref : Ref)
  | mismatch (mismatch : Mismatch)
  deriving DecidableEq

namespace Error

/-- A defect is the one error that no program should be able to cause. -/
def isDefect : Error → Bool
  | defect _ => true
  | _ => false

def message : Error → String
  | .generic message => message
  | .defect cause => "internal compiler error: " ++ cause.message
  | .parse cause => "parse error: " ++ cause.render
  | .malformed cause => "syntax error: " ++ cause.message
  | .undefined ref => "undefined reference `" ++ ref.name.text ++ "`"
  | .mismatch cause => "type mismatch: " ++ cause.render

end Error

end SimplyTyped
