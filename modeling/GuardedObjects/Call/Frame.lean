import GuardedObjects.Call.Arguments
import GuardedObjects.Fault
import GuardedObjects.Member.Visibility

/-!
# Frames

A frame is what a running body knows: who runs, on which receiver and with which arguments. Access
is decided for the caller in whose name a frame acts.
-/

namespace GuardedObjects

/-- In whose name an operation is made. -/
inductive Caller where
  | topLevel
  | reflection
  | function (name : String)
  /-- A callable of the class `declaring`, on a receiver of exact class `receiver`. -/
  | method (declaring name : String) (receiver : Option String)
deriving DecidableEq, Repr

namespace Caller

def name : Caller → String
  | .topLevel => "<top-level>"
  | .reflection => "<reflection>"
  | .function name | .method _ name _ => name

def declaring? : Caller → Option String
  | .method declaring _ _ => some declaring
  | .topLevel | .reflection | .function _ => none

def receiver? : Caller → Option String
  | .method _ _ receiver => receiver
  | .topLevel | .reflection | .function _ => none

def isFunction : Caller → Bool
  | .function _ => true
  | .topLevel | .reflection | .method .. => false

/-- The caller is a constructor that runs on an instance of exact class `cls`. -/
def isConstructorOf (caller : Caller) (cls : String) : Bool :=
  match caller with
  | .method _ name receiver => name = constructorName && receiver = some cls
  | .topLevel | .reflection | .function _ => false

def originText : Caller → String
  | .topLevel => "TopLevel"
  | .reflection => "Reflection"
  | .function _ => "FreeFunction"
  | .method .. => "Method"

/-- A method is written with its class, and with its receiver's where that is another one. -/
def text : Caller → String
  | .method declaring name (some receiver) =>
    if declaring = receiver then s!"{declaring}.{name}" else s!"{declaring}.{name} on {receiver}"
  | .method declaring name none => s!"{declaring}.{name}"
  | caller => caller.name

end Caller

inductive Receiver where
  | none
  | object (ref : ObjectRef)
  | cls (name : String)

namespace Receiver

def className? : Receiver → Option String
  | .none => Option.none
  | .object r => some r.className
  | .cls name => some name

def text : Receiver → String
  | .none => "none"
  | .object _ => "instance"
  | .cls _ => "class"

end Receiver

structure Frame where
  caller : Caller
  receiver : Receiver := .none
  args : BoundArgs := ∅

namespace Frame

/-- The frame of code that belongs to no callable. -/
def main : Frame := { caller := .topLevel }

/-- The frame that is exempt from access rules. -/
def reflect : Frame := { caller := .reflection }

def this (frame : Frame) : Except Fault ObjectRef :=
  match frame.receiver with
  | .object r => .ok r
  | .none | .cls _ => .error (.noReceiver frame.caller.text)

def arg (frame : Frame) (name : String) : Except Fault Value :=
  match frame.args.find? name with
  | some v => .ok v
  | none => .error (.binding frame.caller.text (.noParameter name))

end Frame

end GuardedObjects
