import GuardedObjects.Annotation.Token

/-!
# Errors of annotations

Why an annotation denotes no type.
-/

namespace GuardedObjects

/-- What the reader of an annotation was looking for. -/
inductive Expectation where
  | typeName
  | closingBracket
  | finish
deriving DecidableEq, Repr

def Expectation.text : Expectation → String
  | .typeName => "type name"
  | .closingBracket => "']'"
  | .finish => "end of annotation"

inductive AnnotationError where
  /-- The text holds no token. -/
  | empty
  | unexpectedCharacter (source : String) (offset : Nat)
  | unexpectedToken (found : Token) (expected : Expectation) (offset : Nat)
  | unexpectedEnd (expected : Expectation)
  | argumentCount (name : String) (expected actual : Nat)
  /-- A type that takes no arguments was given some. -/
  | notGeneric (name : String)
deriving DecidableEq, Repr

namespace AnnotationError

def kind : AnnotationError → String
  | .empty => "Empty"
  | .unexpectedCharacter .. => "UnexpectedCharacter"
  | .unexpectedToken .. => "UnexpectedToken"
  | .unexpectedEnd .. => "UnexpectedEnd"
  | .argumentCount .. => "InvalidTypeArgCount"
  | .notGeneric .. => "NotGeneric"

def message : AnnotationError → String
  | .empty => "Empty type annotation"
  | .unexpectedCharacter source offset =>
    s!"Unexpected character at offset {offset} in '{source}'"
  | .unexpectedToken found expected offset =>
    s!"Unexpected '{found.text}' at offset {offset}, expected {expected.text}"
  | .unexpectedEnd expected => s!"Unexpected end of annotation, expected {expected.text}"
  | .argumentCount name expected actual =>
    s!"Type '{name}' expects {expected} type argument(s), got {actual}"
  | .notGeneric name => s!"Type '{name}' does not take type arguments"

instance : ToString AnnotationError := ⟨message⟩

end AnnotationError

end GuardedObjects
