import GuardedObjects.Ty.Printer

/-!
# Faults

Why a single call or access failed. A fault leaves the operation that raised it and goes to its
caller.
-/

namespace GuardedObjects

inductive BindingProblem where
  | tooManyPositionals (capacity : Nat)
  | multipleValues (parameter : String)
  | unexpectedKeyword (keyword : String)
  | missing (parameter : String)
  /-- A body asked for a parameter that its callable does not have. -/
  | noParameter (name : String)
  /-- A class without a constructor was given arguments. -/
  | noConstructor
deriving DecidableEq, Repr

def BindingProblem.message : BindingProblem → String
  | .tooManyPositionals capacity =>
    s!"takes {capacity} positional argument(s) but more were given"
  | .multipleValues parameter => s!"got multiple values for argument '{parameter}'"
  | .unexpectedKeyword keyword => s!"got an unexpected keyword argument '{keyword}'"
  | .missing parameter => s!"missing required argument '{parameter}'"
  | .noParameter name => s!"no parameter named '{name}'"
  | .noConstructor => "takes no arguments"

/-- Where a value is held against a declared type. -/
inductive TypedPlace where
  | parameter (name callable : String)
  | result (callable : String)
  | attribute (owner name : String)
deriving DecidableEq, Repr

def TypedPlace.text : TypedPlace → String
  | .parameter name callable => s!"parameter '{name}' of '{callable}'"
  | .result callable => s!"return value of '{callable}'"
  | .attribute owner name => s!"attribute '{owner}.{name}'"

inductive Fault where
  | typeMismatch (place : TypedPlace) (expected : Ty) (actual : String)
  /-- The target of an access is no instance. -/
  | notAnObject (member actual : String)
  | constWrite (owner name : String)
  | accessDenied (owner member : String)
  | untypedAttribute (owner name : String)
  | binding (callable : String) (problem : BindingProblem)
  | undefinedMember (owner member : String)
  | notCallable (owner member : String)
  | methodAsAttribute (owner member : String)
  | noReceiver (callable : String)
  | notImplemented (callable : String)
  | unknownClass (name : String)
  | unknownFunction (name : String)
  /-- Raised by a body. -/
  | raised (text : String)

namespace Fault

def kind : Fault → String
  | .typeMismatch .. | .notAnObject .. => "TypeMismatch"
  | .constWrite .. => "ConstModifierViolation"
  | .accessDenied .. => "AccessModifierViolation"
  | .untypedAttribute .. => "MissingAttributeTypeAnnotation"
  | .binding .. => "ArgumentBinding"
  | .undefinedMember .. => "UndefinedMember"
  | .notCallable .. => "NotCallable"
  | .methodAsAttribute .. => "MethodAsAttribute"
  | .noReceiver _ => "NoReceiver"
  | .notImplemented _ => "AbstractInvocation"
  | .unknownClass _ => "UnknownClass"
  | .unknownFunction _ => "UnknownFunction"
  | .raised _ => "Raised"

def message : Fault → String
  | .typeMismatch place expected actual =>
    s!"Type mismatch for {place.text}: expected {expected.text}, got {actual}"
  | .notAnObject member actual =>
    s!"Type mismatch for target of '{member}': expected object, got {actual}"
  | .constWrite owner name =>
    s!"Attribute '{owner}.{name}' is const and cannot be modified"
  | .accessDenied owner member =>
    s!"Access to protected/private member '{owner}.{member}' is not allowed"
  | .untypedAttribute owner name => s!"Attribute '{owner}.{name}' has no type annotation"
  | .binding callable problem => s!"'{callable}': {problem.message}"
  | .undefinedMember owner member => s!"'{owner}' has no member '{member}'"
  | .notCallable owner member => s!"Member '{owner}.{member}' is not callable"
  | .methodAsAttribute owner member =>
    s!"Member '{owner}.{member}' is a method and must be called"
  | .noReceiver callable => s!"'{callable}' has no receiver"
  | .notImplemented callable => s!"Abstract method '{callable}' has no implementation"
  | .unknownClass name => s!"Unknown class '{name}'"
  | .unknownFunction name => s!"Unknown function '{name}'"
  | .raised text => text

instance : ToString Fault := ⟨message⟩

end Fault

end GuardedObjects
