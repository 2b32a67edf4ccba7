import GuardedObjects.Class.Linearization
import GuardedObjects.Config
import GuardedObjects.Declaration.Resolution
import GuardedObjects.Review

/-!
# The registry

Classes and functions are declared one after the other. A declaration is accepted as a whole or
leaves the registry as it is; a class may extend only classes that were accepted before it.
-/

namespace GuardedObjects

structure Registry where
  config : Config := {}
  classes : ClassTable := ∅
  functions : List Callable := []
deriving Inhabited

namespace Registry

def function? (r : Registry) (name : String) : Option Callable :=
  r.functions.find? fun f => f.name = name

def hasFunction (r : Registry) (name : String) : Bool := (r.function? name).isSome

def basesOf (r : Registry) (d : ClassDecl) : Except DeclarationError (List ClassInfo) :=
  d.bases.mapM fun base =>
    match r.classes.find? base with
    | some c => .ok c
    | none => .error (.unknownBase d.name base)

/-- The ancestors of a class with these bases: a merge of the resolution orders of the bases that
also keeps the order of the bases themselves. -/
def ancestorsOf (bases : List ClassInfo) : Option (List String) :=
  Linearization.merge (bases.map ClassInfo.order ++ [bases.map ClassInfo.name])

/-- The class that a declaration describes, in view of the classes declared so far. -/
def resolve (r : Registry) (d : ClassDecl) : Except DeclarationError ClassInfo := do
  let bases ← r.basesOf d
  match ancestorsOf bases with
  | none => throw (.inconsistentOrder d.name)
  | some ancestors => d.resolve ancestors

def rules (r : Registry) : List Rule :=
  match r.config.mode with
  | .enforced => Rule.all
  | .passthrough => []

def declare (r : Registry) (d : ClassDecl) : Except DeclarationError (ClassInfo × Registry) := do
  if r.classes.contains d.name then throw (.duplicateClass d.name)
  let c ← r.resolve d
  match r.classes.review? r.rules c with
  | some violation => throw violation
  | none => return (c, { r with classes := r.classes.push c })

def declareFunction (r : Registry) (d : FunctionDecl) :
    Except DeclarationError (Callable × Registry) := do
  if r.hasFunction d.name then throw (.duplicateFunction d.name)
  let f ← d.resolve
  match f.review? r.rules with
  | some violation => throw violation
  | none => return (f, { r with functions := r.functions ++ [f] })

end Registry

end GuardedObjects
