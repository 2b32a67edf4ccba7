import GuardedObjects.Table
import GuardedObjects.Value.Basic

/-!
# Objects from outside

References to objects that no declared class has made. A labelled object is made when its label is
first met and keeps the classes it was met with; an object without a label is new each time.
-/

namespace GuardedObjects

structure OutsideObjects where
  labelled : Table Int ObjectRef := ∅
  /-- How many objects without a label were made. -/
  unlabelled : Nat := 0

namespace OutsideObjects

instance : EmptyCollection OutsideObjects := ⟨{}⟩

instance : Inhabited OutsideObjects := ⟨∅⟩

def meet (o : OutsideObjects) (label : Option Int) (lineage : List String) :
    ObjectRef × OutsideObjects :=
  match label with
  | none => (⟨.unlabelled o.unlabelled, lineage⟩, { o with unlabelled := o.unlabelled + 1 })
  | some l =>
    match o.labelled.find? l with
    | some r => (r, o)
    | none =>
      let r : ObjectRef := ⟨.labelled l, lineage⟩
      (r, { o with labelled := o.labelled.insert l r })

end OutsideObjects

end GuardedObjects
