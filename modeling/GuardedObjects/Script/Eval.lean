import GuardedObjects.Call.Action
import GuardedObjects.Script.Expr
import GuardedObjects.Table

/-!
# Evaluating scripts

An expression is evaluated in a frame to an action that may change variables and may fail. Operands
are evaluated from left to right and before the operation itself. Variables keep what they were
given before a fault.
-/

namespace GuardedObjects.Script

abbrev Vars := Table String Value

abbrev Eval := ExceptT Fault (StateT Vars Action)

def ask (request : Request) : Eval Value :=
  fun vars => Action.ask request fun reply => .done (reply, vars)

def readVar (name : String) : Eval Value := do
  match (← get).find? name with
  | some v => return v
  | none => throw (.raised "unbound variable")

/-- The sum of two integers, modulo 2 ^ 64. -/
def addValues : Value → Value → Except Fault Value
  | .int a, .int b => .ok (.int (a + b))
  | _, _ => .error (.raised "add: ints expected")

/-- What `test` says of a value that is an instance, and none of any other value. -/
def ofInstance (test : ObjectRef → Value) : Value → Value
  | .object r => if r.isOutside then .none else test r
  | _ => .none

def optionalName : Option String → Value
  | some name => .str name
  | none => .none

def describeArgs (args : BoundArgs) : Value :=
  .list (args.entries.map fun a => .tuple [.str a.name, .str a.kind.text, a.value])

def describeCaller (caller : Caller) : Value :=
  .list [.str caller.originText, .str caller.name, optionalName caller.declaring?,
    optionalName caller.receiver?, .str caller.text, .bool caller.isFunction]

def describeReceiver (receiver : Receiver) : Value :=
  let cls := optionalName receiver.className?
  .list [.str receiver.text, cls, cls]

mutual

def eval (frame : Frame) : Expr → Eval Value
  | .literal v => return v
  | .outside label lineage => ask (.outside label lineage)
  | .assign name e => do
    let v ← eval frame e
    modify (·.insert name v)
    return v
  | .var name => readVar name
  | .block es => do return (← evalItems frame es).getLastD .none
  | .list es => do return .list (← evalItems frame es)
  | .tuple es => do return .tuple (← evalItems frame es)
  | .set es => do return .set (← evalItems frame es)
  | .dict entries => do return .dict (← evalEntries frame entries)
  | .cond condition whenTrue otherwise => do
    match ← eval frame condition with
    | .bool true => eval frame whenTrue
    | _ => eval frame otherwise
  | .equal a b => do
    let v ← eval frame a
    return .bool (v.equal (← eval frame b))
  | .add a b => do
    let v ← eval frame a
    liftExcept (addValues v (← eval frame b))
  | .log e => do ask (.log (← eval frame e))
  | .raise text => throw (.raised text)
  | .attempt e =>
    tryCatch (do return .tuple [.str "ok", ← eval frame e]) fun fault =>
      return .tuple [.str fault.kind, .str fault.message]
  | .arg name => liftExcept (frame.arg name)
  | .args => return describeArgs frame.args
  | .this => do return .object (← liftExcept frame.this)
  | .getMember target member => do ask (.get (← eval frame target) member)
  | .setMember target member e => do
    let t ← eval frame target
    ask (.set t member (← eval frame e))
  | .callMember target member args => do
    let t ← eval frame target
    ask (.call t member (← evalArguments frame args))
  | .getThis member => ask (.getSelf member)
  | .setThis member e => do ask (.setSelf member (← eval frame e))
  | .callThis member args => do
    ask (.callSelf member (← evalArguments frame args))
  | .callSuper member args => do
    ask (.callSuper member (← evalArguments frame args))
  | .callStatic owner member args => do
    ask (.callStatic owner member (← evalArguments frame args))
  | .callFunction name args => do
    ask (.callFunction name (← evalArguments frame args))
  | .instantiate owner args => do
    ask (.instantiate owner (← evalArguments frame args))
  | .typeName e => do return .str (← eval frame e).typeName
  | .isInstance e cls => do
    return ofInstance (fun r => .bool (r.isInstanceOf cls)) (← eval frame e)
  | .same a b => do
    let v ← eval frame a
    let w ← eval frame b
    return ofInstance (fun r => ofInstance (fun s => .bool (r.id = s.id)) w) v
  | .caller => return describeCaller frame.caller
  | .isConstructorOf cls => return .bool (frame.caller.isConstructorOf cls)
  | .receiver => return describeReceiver frame.receiver
  | .access owner member => ask (.access owner member)

def evalItems (frame : Frame) : List Expr → Eval (List Value)
  | [] => return []
  | e :: es => do
    let v ← eval frame e
    return v :: (← evalItems frame es)

def evalEntries (frame : Frame) : List (Expr × Expr) → Eval (List (Value × Value))
  | [] => return []
  | (key, e) :: entries => do
    let k ← eval frame key
    let v ← eval frame e
    return (k, v) :: (← evalEntries frame entries)

def evalKeywords (frame : Frame) : List (String × Expr) → Eval (List (String × Value))
  | [] => return []
  | (name, e) :: keywords => do
    let v ← eval frame e
    return (name, v) :: (← evalKeywords frame keywords)

def evalArguments (frame : Frame) : CallArgs → Eval Arguments
  | .of positional keywords => do
    let values ← evalItems frame positional
    return ⟨values, ← evalKeywords frame keywords⟩

end

def evalScript (frame : Frame) (script : List Expr) : Eval Value := do
  return (← evalItems frame script).getLastD .none

/-- The body that a script makes. Every call starts with no variables set. -/
def body (script : List Expr) : Body := fun frame => do
  return (← (evalScript frame script).run.run ∅).1

end GuardedObjects.Script
