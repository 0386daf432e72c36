import SimplyTyped.Pass.Trace

/-!
# Scripts

A script is a pass written down as data. Its values and its states are integers
and lists; a continuation refers to the value that it received as `it`. Building a
script gives a traced pass, so that a run shows which steps were built and which
were run, and in what order.
-/

set_option autoImplicit false

namespace SimplyTyped.Script

/-- What scripts compute with. Integers have 64 bits and wrap around. -/
inductive Value where
  | null
  | int (value : Int64)
  | list (values : List Value)
  | text (text : String)
  deriving Inhabited

/-- A value in a script: written out, or the one that the enclosing continuation
received. -/
inductive Operand where
  | it
  | literal (value : Value)

def Operand.resolve (it : Value) : Operand → Value
  | .it => it
  | .literal value => value

/-- A function on values. Each leaves a value that it is not made for as it is. -/
inductive Operation where
  | id
  | const (operand : Operand)
  | wrap
  | pair (operand : Operand)
  | length
  | push (operand : Operand)
  | add (operand : Operand)
  | mul (operand : Operand)

def Operation.apply (it : Value) : Operation → Value → Value
  | .id, value => value
  | .const operand, _ => operand.resolve it
  | .wrap, value => .list [value]
  | .pair operand, value => .list [value, operand.resolve it]
  | .length, .list values => .int (Int64.ofNat values.length)
  | .push operand, .list values => .list (values ++ [operand.resolve it])
  | .add operand, .int left =>
      match operand.resolve it with
      | .int right => .int (left + right)
      | _ => .int left
  | .mul operand, .int left =>
      match operand.resolve it with
      | .int right => .int (left * right)
      | _ => .int left
  | _, value => value

end Script

/-- A pass written down. The terms below a combinator are scripts of their own. -/
inductive Script where
  | pure (operand : Script.Operand)
  | fail (error : Error)
  | lift (outcome : Except Error Script.Operand)
  | get
  | gets (f : Script.Operation)
  | put (operand : Script.Operand)
  | modify (f : Script.Operation)
  /-- Changes the state and then yields the new state, or fails. -/
  | renew (f : Script.Operation) (failure : Option Error)
  /-- Shows when it is built and when it is run. -/
  | tick (label : String)
  | map (script : Script) (f : Script.Operation)
  | followedBy (script next : Script)
  /-- `next` is a continuation: it is built when `script` has succeeded. -/
  | andThen (script next : Script)
  | sequence (scripts : List Script)
  /-- `body` is a continuation: it is built anew for each operand. -/
  | traverse (operands : List Script.Operand) (body : Script)

namespace Script

/-- A pass as scripts denote them. -/
abbrev Step (α : Type) : Type :=
  PassT Trace Value α

mutual

/-- Builds the pass that a script denotes where `it` is given. Everything outside
continuations is built at once, from left to right. -/
def build : Script → Value → Trace (Step Value)
  | .pure operand, it => return Pure.pure (operand.resolve it)
  | .fail error, _ => return throw error
  | .lift outcome, it => return PassT.lift (outcome.map (Operand.resolve it))
  | .get, _ => return PassT.get
  | .gets f, it => return PassT.gets (f.apply it)
  | .put operand, it => return (fun _ => .null) <$> PassT.put (operand.resolve it)
  | .modify f, it => return (fun _ => .null) <$> PassT.modify (f.apply it)
  | .renew f failure, it =>
      return PassT.step fun state =>
        let new := f.apply it state
        (failure.elim (.ok new) .error, new)
  | .tick label, _ => do
      Trace.note (.built label)
      return PassT.built do
        Trace.note (.ran label)
        return Pure.pure .null
  | .map script f, it => do
      let pass ← script.build it
      return f.apply it <$> pass
  | .followedBy script next, it => do
      let pass ← script.build it
      let next ← next.build it
      return pass.followedBy next
  | .andThen script next, it => do
      let pass ← script.build it
      return pass.andThen fun value => next.build value
  | .sequence scripts, it => do
      let passes ← buildAll scripts it
      return .list <$> PassT.sequence passes
  | .traverse operands body, it =>
      return .list <$> PassT.traverse (fun item => body.build item)
        (operands.map (Operand.resolve it))

def buildAll : List Script → Value → Trace (List (Step Value))
  | [], _ => return []
  | script :: scripts, it => do
      let pass ← script.build it
      let passes ← buildAll scripts it
      return pass :: passes

end

/-- Builds the whole script, with nothing received yet, and then runs it. -/
def run (script : Script) (state : Value) : Trace (Except Error Value × Value) := do
  let pass ← script.build .null
  pass.run state

def evaluate (script : Script) (state : Value) : Trace (Except Error Value) := do
  let pass ← script.build .null
  pass.evaluate state

def execute (script : Script) (state : Value) : Trace (Except Error Value) := do
  let pass ← script.build .null
  pass.execute state

/-- A script that is no combination of scripts. -/
def IsStep : Script → Prop
  | map _ _ | followedBy _ _ | andThen _ _ | sequence _ | traverse _ _ => False
  | _ => True

/-- No way of running tells two scripts apart, each built for what it receives: the events of
building and running them agree, and so do the outcome and the state in the end. `Script.run`,
`Script.evaluate` and `Script.execute` are these ways where nothing is received. -/
structure Alike (left right : Trace (Step Value)) : Prop where
  run : ∀ state, (do
      let pass ← left
      pass.run state) = (do
      let pass ← right
      pass.run state)
  evaluate : ∀ state, (do
      let pass ← left
      pass.evaluate state) = (do
      let pass ← right
      pass.evaluate state)
  execute : ∀ state, (do
      let pass ← left
      pass.execute state) = (do
      let pass ← right
      pass.execute state)

end Script

end SimplyTyped
