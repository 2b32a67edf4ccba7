import GuardedObjects.Call.Action
import GuardedObjects.Member.Markers

/-!
# Callables

Methods and functions with their parameters, declared types and bodies.
-/

namespace GuardedObjects

structure Param where
  name : String
  kind : ParamKind := .regular
  type : Option Ty := none
  default : Option Value := none

inductive CallableKind where
  | method
  | staticMethod
  | classMethod
  | property
  | cachedProperty
  | function
deriving DecidableEq, Repr

namespace CallableKind

def hasReceiver : CallableKind → Bool
  | .method | .classMethod | .property | .cachedProperty => true
  | .staticMethod | .function => false

def isProperty : CallableKind → Bool
  | .property | .cachedProperty => true
  | .method | .staticMethod | .classMethod | .function => false

def receiverName : CallableKind → String
  | .classMethod => "cls"
  | .method | .staticMethod | .property | .cachedProperty | .function => "self"

def text : CallableKind → String
  | .method => "method"
  | .staticMethod => "static method"
  | .classMethod => "class method"
  | .property => "property"
  | .cachedProperty => "cached property"
  | .function => "function"

end CallableKind

/-- A method of the class `owner`, or a function when there is no owner. -/
structure Callable where
  name : String
  owner : Option String := none
  kind : CallableKind := .function
  receiverType : Option Ty := none
  params : List Param := []
  returns : Option Ty := none
  markers : Markers := ∅
  body : Option Body := none

namespace Callable

def qualifiedName (c : Callable) : String :=
  match c.owner with
  | some owner => s!"{owner}.{c.name}"
  | none => c.name

def isSpecial (c : Callable) : Bool := Visibility.ofName c.name = .special

def caller (c : Callable) (receiver : Receiver) : Caller :=
  match c.owner with
  | some owner => .method owner c.name receiver.className?
  | none => .function c.name

end Callable

end GuardedObjects
