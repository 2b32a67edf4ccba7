import GuardedObjects.Class.Basic

/-!
# Reports on members

What a class has under a name, itself and by inheritance.
-/

namespace GuardedObjects

structure MemberReport where
  /-- The class itself declares the name. -/
  isDeclared : Bool
  declaringClass : Option String
  ownAttribute : Option Ty
  ownMethod : Option Callable
  ownValue : Option Value
  /-- The nearest attribute, with the class that declares it. -/
  nearestAttribute : Option (String × Ty)
  nearestMethod : Option Callable
  nearestValue : Option Value
  /-- The name is that of a class of the resolution order. -/
  isSuperclass : Bool

def ClassTable.report (t : ClassTable) (c : ClassInfo) (name : String) : MemberReport where
  isDeclared := c.declares name
  declaringClass := (t.declaringClass? c name).map ClassInfo.name
  ownAttribute := c.attribute? name
  ownMethod := c.method? name
  ownValue := c.value? name
  nearestAttribute := (firstOwner? (·.attribute? name) (t.lineage c)).map fun (owner, type) =>
    (owner.name, type)
  nearestMethod := t.method? c name
  nearestValue := t.value? c name
  isSuperclass := c.isSubclassOf name

end GuardedObjects
