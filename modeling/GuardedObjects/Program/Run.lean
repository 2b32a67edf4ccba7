import GuardedObjects.Call.Binding
import GuardedObjects.Program.Mediation

/-!
# Running programs

`Program.serve` answers one request of a frame, and `Program.exec` runs an action by answering its
requests one after the other. A request may invoke a callable, whose body is an action of its own,
so running is bounded by how deep invocations may nest: `exec` gives `none` beyond that depth.
-/

namespace GuardedObjects

/-- A computation on the world that may raise a fault, or run out of depth. What it did to the
world before a fault stays. -/
abbrev Exec (α : Type) := ExceptT Fault (StateT World Option) α

namespace Exec

variable {α β : Type}

theorem bind_apply (x : Exec α) (f : α → Exec β) (w : World) :
    (x >>= f) w =
      match x w with
      | none => none
      | some (.error fault, w) => some (.error fault, w)
      | some (.ok a, w) => f a w := by
  show ((x w).bind fun out => ExceptT.bindCont f out.1 out.2) = _
  rcases x w with _ | ⟨_ | _, _⟩ <;> rfl

theorem liftExcept_apply (e : Except Fault α) (w : World) :
    (liftExcept e : Exec α) w = some (e, w) := by
  cases e <;> rfl

end Exec

def Action.run {α : Type} (serve : Request → Exec Value) : Action α → StateT World Option α
  | .done a => fun w => some (a, w)
  | .ask request next => fun w =>
    match serve request w with
    | none => none
    | some (reply, w) => (next reply).run serve w

abbrev BodyRunner := Frame → Action Reply → Exec Value

/-- The reply to the request that led to an invocation with this result, and the world then. -/
def Invocation.conclude (i : Invocation) (v : Value) (w : World) : Value × World :=
  match i.ending with
  | .result => (v, w)
  | .cache r property => (v, w.update r (·.cache property v))
  | .object r => (.object r, w)

namespace Program

/-- The first regular parameter whose type does not admit its argument. -/
def argumentFault? (c : Callable) (bound : BoundArgs) : Option Fault :=
  (c.params.zip bound.entries).findSome? fun (p, arg) =>
    match p.kind, p.type with
    | .regular, some t =>
      if t.admits arg.value then none
      else some (.typeMismatch (.parameter p.name c.qualifiedName) t arg.value.typeName)
    | _, _ => none

def resultFault? (c : Callable) (v : Value) : Option Fault :=
  match c.returns with
  | some t =>
    if t.admits v then none else some (.typeMismatch (.result c.qualifiedName) t v.typeName)
  | none => none

/-- The fault, if the callable is one whose arguments and result are checked. -/
def checked (p : Program) (c : Callable) (fault : Option Fault) : Except Fault Unit :=
  match fault with
  | some fault => if c.isChecked p.mode then .error fault else .ok ()
  | none => .ok ()

/-- Binds and checks the arguments, and gives the body with the frame that it runs in. -/
def enter (p : Program) (i : Invocation) : Except Fault (Frame × Body) := do
  let c := i.callable
  let bound ← (bindArgs c.params i.args).mapError (Fault.binding c.qualifiedName)
  p.checked c (argumentFault? c bound)
  match c.body with
  | none => throw (.notImplemented c.qualifiedName)
  | some body =>
    return ({ caller := c.caller i.receiver, receiver := i.receiver, args := bound }, body)

def invoke (p : Program) (run : BodyRunner) (i : Invocation) : Exec Value := do
  let (frame, body) ← liftExcept (p.enter i)
  let v ← run frame (body frame)
  liftExcept (p.checked i.callable (resultFault? i.callable v))
  modifyGet (i.conclude v)

def serve (p : Program) (run : BodyRunner) (frame : Frame) (request : Request) : Exec Value :=
  fun w =>
    match p.mediate frame request w with
    | (.error fault, w) => some (.error fault, w)
    | (.ok (.value _ v), w) => some (.ok v, w)
    | (.ok (.invoke i), w) => p.invoke run i w

/-- Runs the body of a callable, with invocations nested at most `depth` deep. -/
def exec (p : Program) : Nat → BodyRunner
  | 0, _, _ => fun _ => none
  | depth + 1, frame, action => ExceptT.mk (action.run (p.serve (p.exec depth) frame))

/-- Runs an action in a frame that is not the frame of a callable. -/
def runAction {α : Type} (p : Program) (depth : Nat) (frame : Frame) (action : Action α) :
    StateT World Option α :=
  action.run (p.serve (p.exec depth) frame)

end Program

end GuardedObjects
