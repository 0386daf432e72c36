import SimplyTyped.Ref

/-!
# Core expressions and programs

A core program is a list of top-level bindings and an entry expression. Variables
carry their type in their reference, applications and lambdas store theirs on the
node. Nothing here makes a stored type right: `Expr.verify` recomputes them all.
-/

set_option autoImplicit false

namespace SimplyTyped

/-- A core expression. Literals are signed 64-bit integers and truth values. -/
inductive Expr where
  | var (ref : Ref)
  | int (value : Int64)
  | bool (value : Bool)
  /-- The application of `callee` to `arguments`, annotated with its type. -/
  | app (ty : Ty) (callee : Expr) (arguments : List Expr)
  /-- A lambda over `params`, annotated with its whole function type. -/
  | lambda (ty : Ty) (params : List Ref) (body : Expr)
  deriving Inhabited

namespace Expr

/-- Induction with one hypothesis for the callee and one for each argument. -/
@[elab_as_elim, induction_eliminator]
theorem induction {motive : Expr → Prop}
    (var : ∀ ref, motive (.var ref))
    (int : ∀ value, motive (.int value))
    (bool : ∀ value, motive (.bool value))
    (app : ∀ ty callee arguments, motive callee → (∀ argument ∈ arguments, motive argument) →
      motive (.app ty callee arguments))
    (lambda : ∀ ty params body, motive body → motive (.lambda ty params body))
    (expr : Expr) : motive expr :=
  Expr.rec (motive_2 := fun exprs => ∀ expr ∈ exprs, motive expr)
    var int bool app lambda
    (fun _ member => absurd member List.not_mem_nil)
    (fun _ _ head tail _ member => by
      rcases List.mem_cons.mp member with rfl | member
      · exact head
      · exact tail _ member)
    expr

def ty : Expr → Ty
  | var ref => ref.ty
  | int _ => .int
  | bool _ => .bool
  | app ty _ _ => ty
  | lambda ty _ _ => ty

/-- An atom needs no parentheses where an argument stands. -/
def isAtom : Expr → Bool
  | var _ | int _ | bool _ => true
  | app _ _ _ | lambda _ _ _ => false

/-- Only a lambda needs parentheses where a callee stands. -/
def isLambda : Expr → Bool
  | lambda _ _ _ => true
  | _ => false

mutual

def decEq : (left right : Expr) → Decidable (left = right)
  | var ref, var ref' =>
      if same : ref = ref' then .isTrue (by rw [same]) else .isFalse (by simp [same])
  | int value, int value' =>
      if same : value = value' then .isTrue (by rw [same]) else .isFalse (by simp [same])
  | bool value, bool value' =>
      if same : value = value' then .isTrue (by rw [same]) else .isFalse (by simp [same])
  | app ty callee arguments, app ty' callee' arguments' =>
      if sameTy : ty = ty' then
        match decEq callee callee', decEqAll arguments arguments' with
        | .isTrue sameCallee, .isTrue sameArguments =>
            .isTrue (by rw [sameTy, sameCallee, sameArguments])
        | .isFalse different, _ => .isFalse (by simp [different])
        | _, .isFalse different => .isFalse (by simp [different])
      else .isFalse (by simp [sameTy])
  | lambda ty params body, lambda ty' params' body' =>
      if sameTy : ty = ty' then
        if sameParams : params = params' then
          match decEq body body' with
          | .isTrue sameBody => .isTrue (by rw [sameTy, sameParams, sameBody])
          | .isFalse different => .isFalse (by simp [different])
        else .isFalse (by simp [sameParams])
      else .isFalse (by simp [sameTy])
  | var _, int _ | var _, bool _ | var _, app _ _ _ | var _, lambda _ _ _ => .isFalse nofun
  | int _, var _ | int _, bool _ | int _, app _ _ _ | int _, lambda _ _ _ => .isFalse nofun
  | bool _, var _ | bool _, int _ | bool _, app _ _ _ | bool _, lambda _ _ _ => .isFalse nofun
  | app _ _ _, var _ | app _ _ _, int _ | app _ _ _, bool _ | app _ _ _, lambda _ _ _ =>
      .isFalse nofun
  | lambda _ _ _, var _ | lambda _ _ _, int _ | lambda _ _ _, bool _ | lambda _ _ _, app _ _ _ =>
      .isFalse nofun

def decEqAll : (left right : List Expr) → Decidable (left = right)
  | [], [] => .isTrue rfl
  | [], _ :: _ => .isFalse nofun
  | _ :: _, [] => .isFalse nofun
  | head :: tail, head' :: tail' =>
      match decEq head head', decEqAll tail tail' with
      | .isTrue sameHead, .isTrue sameTail => .isTrue (by rw [sameHead, sameTail])
      | .isFalse different, _ => .isFalse (by simp [different])
      | _, .isFalse different => .isFalse (by simp [different])

end

instance : DecidableEq Expr := decEq

end Expr

/-- A top-level binding. Its name is a reference, so it states a type of its own. -/
structure Binding where
  name : Ref
  value : Expr
  deriving DecidableEq, Inhabited

def Binding.ty (binding : Binding) : Ty :=
  binding.name.ty

/-- Bindings in declaration order, each of which later ones may refer to, and the
expression that the program stands for. -/
structure Program where
  bindings : List Binding
  entry : Expr
  deriving DecidableEq, Inhabited

def Program.ty (program : Program) : Ty :=
  program.entry.ty

end SimplyTyped
