import GuardedObjects.Call.Frame

/-!
# Actions

What a body does is a tree: it is done, or it makes a request and goes on with the reply. Bodies
act on objects in no other way, so a statement about all actions is one about all bodies.
-/

namespace GuardedObjects

/-- What a body may ask for. Requests on the receiver end in `Self` or `Super`. -/
inductive Request where
  | get (target : Value) (member : String)
  | set (target : Value) (member : String) (value : Value)
  | call (target : Value) (member : String) (args : Arguments)
  | getSelf (member : String)
  | setSelf (member : String) (value : Value)
  | callSelf (member : String) (args : Arguments)
  | callSuper (member : String) (args : Arguments)
  | callStatic (owner member : String) (args : Arguments)
  | callFunction (name : String) (args : Arguments)
  | instantiate (owner : String) (args : Arguments)
  /-- A report on how the frame may use a member of a class. -/
  | access (owner member : String)
  /-- An object from outside. -/
  | outside (label : Option Int) (lineage : List String)
  | log (value : Value)

abbrev Reply := Except Fault Value

inductive Action (α : Type) where
  | done (a : α)
  | ask (request : Request) (next : Reply → Action α)

namespace Action

variable {α β : Type}

def bind : Action α → (α → Action β) → Action β
  | .done a, f => f a
  | .ask request next, f => .ask request fun reply => (next reply).bind f

instance : Monad Action where
  pure := .done
  bind := bind

def request (q : Request) : Action Reply := .ask q .done

end Action

abbrev Body := Frame → Action Reply

end GuardedObjects
