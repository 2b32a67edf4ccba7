import GuardedObjects.Class.Basic
import GuardedObjects.Declaration.Error

/-!
# Review of declarations

Seven rules that a class has to keep before it is accepted: four on declared types and three on
overriding. A rule gives the first violation that it finds, and the rules are asked in order.
-/

namespace GuardedObjects

inductive Rule where
  | missingParameterType
  | unnecessaryParameterType
  | missingReturnType
  | missingAttributeType
  | virtualOverride
  | danglingOverride
  | abstractImplementation
deriving DecidableEq, Repr

namespace Rule

def all : List Rule :=
  [.missingParameterType, .unnecessaryParameterType, .missingReturnType, .missingAttributeType,
    .virtualOverride, .danglingOverride, .abstractImplementation]

def name : Rule → String
  | .missingParameterType => "missing-parameter-annotation"
  | .unnecessaryParameterType => "unnecessary-parameter-annotation"
  | .missingReturnType => "missing-return-annotation"
  | .missingAttributeType => "missing-attribute-annotation"
  | .virtualOverride => "virtual-override"
  | .danglingOverride => "dangling-override"
  | .abstractImplementation => "abstract-implementation"

def code : Rule → String
  | .missingParameterType => "D1001"
  | .unnecessaryParameterType => "D1002"
  | .missingReturnType => "D1003"
  | .missingAttributeType => "D1004"
  | .virtualOverride => "D2001"
  | .danglingOverride => "D2002"
  | .abstractImplementation => "D2003"

def description : Rule → String
  | .missingParameterType => "Parameters must have type annotations"
  | .unnecessaryParameterType =>
    "Receivers and variadic collectors must not have type annotations"
  | .missingReturnType => "Callables must declare a return type"
  | .missingAttributeType => "Class attributes must have type annotations"
  | .virtualOverride =>
    "Only virtual or abstract methods may be overridden, and overrides must be marked"
  | .danglingOverride => "Methods marked override must override an inherited method"
  | .abstractImplementation => "Inherited abstract methods must be implemented"

def category : Rule → String
  | .missingParameterType | .unnecessaryParameterType | .missingReturnType
  | .missingAttributeType => "Annotation"
  | .virtualOverride | .danglingOverride | .abstractImplementation => "Inheritance"

/-! ### Rules on single callables -/

def untypedParameter? (c : Callable) : Option DeclarationError :=
  (c.params.find? fun p => p.kind = .regular && p.type.isNone).map fun p =>
    .untypedParameter c.qualifiedName p.name

/-- The receiver if it has a type, and otherwise the first collector that has one. -/
def typedCollector? (c : Callable) : Option DeclarationError :=
  let offending :=
    if c.receiverType.isSome then some c.kind.receiverName
    else (c.params.find? fun p => p.kind.isCollector && p.type.isSome).map Param.name
  offending.map (.typedCollector c.qualifiedName)

def untypedResult? (c : Callable) : Option DeclarationError :=
  if c.returns.isNone then some (.untypedResult c.qualifiedName) else none

/-! ### Rules on classes -/

/-- The first value that has no declared type and no special name. -/
def untypedValue? (c : ClassInfo) : Option DeclarationError :=
  (c.values.keys.find? fun n => Visibility.ofName n ≠ .special && (c.attribute? n).isNone).map
    fun n => .untypedAttribute c.name n

/-- What is wrong with `m` overriding a member that `base` has from some class. -/
def badOverride? (t : ClassTable) (c : ClassInfo) (m : Callable) (base : ClassInfo) :
    Option DeclarationError :=
  match t.declaringClass? base m.name with
  | none => none
  | some declaring =>
    if (declaring.method? m.name).any fun shadowed => shadowed.markers.isOverridable then
      if m.markers.isOverride then none else some (.unmarkedOverride c.name m.name)
    else some (.notOverridable declaring.name c.name m.name)

def badOverrideIn? (t : ClassTable) (c : ClassInfo) : Option DeclarationError :=
  c.methods.entries.findSome? fun e =>
    if e.2.isSpecial then none
    else (t.select c.bases).findSome? fun base => badOverride? t c e.2 base

def danglingOverride? (t : ClassTable) (c : ClassInfo) : Option DeclarationError :=
  let inherited name := (t.select c.ancestors).any fun a => a.declares name
  (c.methods.entries.find? fun e => e.2.markers.isOverride && !inherited e.1).map
    fun e => .danglingOverride c.name e.1

def abstractNames (a : ClassInfo) : List String :=
  (a.methods.sorted.filter fun e => e.2.markers.isAbstract).map Prod.fst

/-- The nearest inherited method of that name, if it is abstract and `c` has no callable for it. -/
def unimplemented? (t : ClassTable) (c : ClassInfo) (name : String) : Option DeclarationError :=
  if c.methods.contains name then none
  else
    match ClassTable.firstOwner? (·.method? name) (t.select c.ancestors) with
    | none => none
    | some (owner, m) =>
      if m.markers.isAbstract then some (.unimplemented owner.name c.name name) else none

def unimplementedIn? (t : ClassTable) (c : ClassInfo) : Option DeclarationError :=
  (t.select c.ancestors).findSome? fun a => (abstractNames a).findSome? (unimplemented? t c)

/-! ### All rules -/

/-- What a function violates. The rules on attributes and overriding do not apply to it. -/
def functionViolation? (rule : Rule) (f : Callable) : Option DeclarationError :=
  match rule with
  | .missingParameterType => untypedParameter? f
  | .unnecessaryParameterType => typedCollector? f
  | .missingReturnType => untypedResult? f
  | .missingAttributeType | .virtualOverride | .danglingOverride | .abstractImplementation => none

/-- What a class violates, whose bases and ancestors are in the table. -/
def classViolation? (rule : Rule) (t : ClassTable) (c : ClassInfo) : Option DeclarationError :=
  let perCallable (f : Callable → Option DeclarationError) :=
    c.methods.entries.findSome? fun e => f e.2
  match rule with
  | .missingParameterType => perCallable untypedParameter?
  | .unnecessaryParameterType => perCallable typedCollector?
  | .missingReturnType => perCallable untypedResult?
  | .missingAttributeType => untypedValue? c
  | .virtualOverride => badOverrideIn? t c
  | .danglingOverride => danglingOverride? t c
  | .abstractImplementation => unimplementedIn? t c

end Rule

def ClassTable.review? (t : ClassTable) (rules : List Rule) (c : ClassInfo) :
    Option DeclarationError :=
  rules.findSome? fun rule => rule.classViolation? t c

def Callable.review? (f : Callable) (rules : List Rule) : Option DeclarationError :=
  rules.findSome? fun rule => rule.functionViolation? f

end GuardedObjects
