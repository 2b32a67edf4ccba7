import GuardedObjects.Annotation.Error

/-!
# Errors of declarations

Why a class or function was not accepted, or why the accepted ones could not be linked.
-/

namespace GuardedObjects

inductive SignatureProblem where
  | duplicateParameter (name : String)
  /-- A parameter stands behind the one that collects keyword arguments. -/
  | afterKeywords (name : String)
  | secondPositionals
deriving DecidableEq, Repr

def SignatureProblem.message : SignatureProblem → String
  | .duplicateParameter name => s!"duplicate parameter '{name}'"
  | .afterKeywords name => s!"parameter '{name}' follows the keyword collector"
  | .secondPositionals => "more than one positional collector"

inductive DeclarationError where
  | untypedParameter (callable parameter : String)
  | untypedResult (callable : String)
  | untypedAttribute (owner name : String)
  /-- A receiver or a collector carries a type. -/
  | typedCollector (callable parameter : String)
  /-- A member of `base` is overridden that is neither virtual nor abstract. -/
  | notOverridable (base owner method : String)
  | unmarkedOverride (owner method : String)
  | danglingOverride (owner method : String)
  | unimplemented (base owner method : String)
  | duplicateClass (name : String)
  | duplicateFunction (name : String)
  | unknownBase (owner base : String)
  | inconsistentOrder (owner : String)
  | invalidType (member : String) (cause : AnnotationError)
  | invalidFriend (owner friend : String)
  | missingBody (callable : String)
  | invalidSignature (callable : String) (problem : SignatureProblem)
  | unresolvedFriend (owner friend : String)
  | ambiguousFriend (owner friend : String)
  | unresolvedType (member missing : String)
deriving DecidableEq, Repr

namespace DeclarationError

/-- The error is raised by a rule of the review, and not by the shape of the declarations. -/
def isReviewed : DeclarationError → Bool
  | .untypedParameter .. | .untypedResult .. | .untypedAttribute .. | .typedCollector ..
  | .notOverridable .. | .unmarkedOverride .. | .danglingOverride .. | .unimplemented .. => true
  | .duplicateClass .. | .duplicateFunction .. | .unknownBase .. | .inconsistentOrder ..
  | .invalidType .. | .invalidFriend .. | .missingBody .. | .invalidSignature ..
  | .unresolvedFriend .. | .ambiguousFriend .. | .unresolvedType .. => false

def kind : DeclarationError → String
  | .untypedParameter .. => "MissingParameterTypeAnnotation"
  | .untypedResult .. => "MissingReturnTypeAnnotation"
  | .untypedAttribute .. => "MissingAttributeTypeAnnotation"
  | .typedCollector .. => "UnnecessaryParameterTypeAnnotation"
  | .notOverridable .. => "VirtualMethodViolation"
  | .unmarkedOverride .. | .danglingOverride .. => "OverrideMethodViolation"
  | .unimplemented .. => "AbstractMethodViolation"
  | .duplicateClass .. => "DuplicateClass"
  | .duplicateFunction .. => "DuplicateFunction"
  | .unknownBase .. => "UnknownBase"
  | .inconsistentOrder .. => "InconsistentHierarchy"
  | .invalidType .. => "InvalidAnnotation"
  | .invalidFriend .. => "InvalidFriend"
  | .missingBody .. => "MissingBody"
  | .invalidSignature .. => "InvalidSignature"
  | .unresolvedFriend .. => "UnresolvedFriend"
  | .ambiguousFriend .. => "AmbiguousFriend"
  | .unresolvedType .. => "UnresolvedType"

def message : DeclarationError → String
  | .untypedParameter callable parameter =>
    s!"Parameter '{parameter}' in '{callable}' has no type annotation"
  | .untypedResult callable => s!"'{callable}' has no return type annotation"
  | .untypedAttribute owner name => s!"Attribute '{owner}.{name}' has no type annotation"
  | .typedCollector callable parameter =>
    s!"Parameter '{parameter}' in '{callable}' should not have a type annotation"
  | .notOverridable base owner method =>
    s!"Method '{base}.{method}' must be marked virtual or abstract to be overridden by '{owner}'"
  | .unmarkedOverride owner method => s!"Method '{owner}.{method}' must be marked override"
  | .danglingOverride owner method =>
    s!"Method '{owner}.{method}' is marked override, but no method to override exists"
  | .unimplemented base owner method =>
    s!"Abstract method '{base}.{method}' must be implemented in class '{owner}'"
  | .duplicateClass name => s!"Class '{name}' is already declared"
  | .duplicateFunction name => s!"Function '{name}' is already declared"
  | .unknownBase owner base => s!"Class '{owner}' extends undeclared class '{base}'"
  | .inconsistentOrder owner =>
    s!"Cannot create a consistent resolution order for class '{owner}'"
  | .invalidType member cause => s!"Invalid annotation on '{member}': {cause.message}"
  | .invalidFriend owner friend => s!"Invalid friend '{friend}' on class '{owner}'"
  | .missingBody callable => s!"'{callable}' has no body and is not abstract"
  | .invalidSignature callable problem =>
    s!"Invalid signature for '{callable}': {problem.message}"
  | .unresolvedFriend owner friend =>
    s!"Friend '{friend}' of class '{owner}' does not resolve to a class, method or function"
  | .ambiguousFriend owner friend =>
    s!"Friend '{friend}' of class '{owner}' names both a class and a function"
  | .unresolvedType member missing =>
    s!"Annotation on '{member}' references undeclared class '{missing}'"

instance : ToString DeclarationError := ⟨message⟩

end DeclarationError

end GuardedObjects
