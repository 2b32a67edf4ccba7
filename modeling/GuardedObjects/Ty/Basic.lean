/-!
# Types

The types that attributes, parameters and results are declared with. A bare container has no
arguments, and a union lists its alternatives in the order in which they were written.
-/

namespace GuardedObjects

inductive Primitive where
  | int
  | float
  | str
  | bool
  | bytes
deriving DecidableEq, Repr

/-- The built-in containers. `varTuple` is the tuple of any length with one element type. -/
inductive Container where
  | list
  | set
  | dict
  | tuple
  | varTuple
deriving DecidableEq, Repr

/-- The number of type arguments that a container takes between brackets, if it is fixed. -/
def Container.arity : Container → Option Nat
  | .list | .set | .varTuple => some 1
  | .dict => some 2
  | .tuple => none

inductive Ty where
  | any
  | primitive (kind : Primitive)
  | cls (name : String)
  | generic (base : Container) (args : List Ty)
  | union (alternatives : List Ty)
  | const (inner : Ty)
  | noValue
deriving Inhabited

namespace Ty

def optional (t : Ty) : Ty := .union [t, .noValue]

def isConst : Ty → Bool
  | .const _ => true
  | _ => false

def isNoValue : Ty → Bool
  | .noValue => true
  | _ => false

def unwrapConst : Ty → Ty
  | .const t => t.unwrapConst
  | t => t

mutual

/-- The class names that occur in the type, left to right, as often as they occur. -/
def classNames : Ty → List String
  | .cls name => [name]
  | .generic _ args => classNamesOf args
  | .union alternatives => classNamesOf alternatives
  | .const t => t.classNames
  | .any | .primitive _ | .noValue => []

def classNamesOf : List Ty → List String
  | [] => []
  | t :: ts => t.classNames ++ classNamesOf ts

end

/-- The alternatives that a type stands for inside a union. -/
def alternatives : Ty → List Ty
  | .union ts => ts
  | t => [t]

/-- The type of a list of alternatives: nested unions are spliced in, and a single alternative
stands for itself. -/
def ofAlternatives (ts : List Ty) : Ty :=
  match ts.flatMap alternatives with
  | [t] => t
  | spliced => .union spliced

end Ty

end GuardedObjects
