import GuardedObjects.Access
import GuardedObjects.Outside

/-!
# The world

The objects that were made so far and what is stored in them, the objects met from outside, and
the values that bodies have logged. A reference leads to an object only if it carries the lineage
that the object was made with.
-/

namespace GuardedObjects

/-- An object of a declared class. Attributes that may not be written again are `fixed`. -/
structure Instance where
  lineage : List String
  slots : Table SlotKey Value := ∅
  fixed : List SlotKey := []
  /-- The results of cached properties, by qualified name. -/
  cached : Table String Value := ∅
deriving Inhabited

namespace Instance

/-- Stores a value under a key, and fixes it there if `fix` holds. -/
def store (o : Instance) (key : SlotKey) (v : Value) (fix : Bool) : Instance :=
  { o with slots := o.slots.insert key v, fixed := if fix then key :: o.fixed else o.fixed }

def cache (o : Instance) (property : String) (v : Value) : Instance :=
  { o with cached := o.cached.insert property v }

def contents (o : Instance) : List (SlotKey × Value) :=
  o.slots.entries.mergeSort fun a b => a.1.precedes b.1

end Instance

structure World where
  objects : Array Instance := #[]
  outside : OutsideObjects := ∅
  log : List Value := []
deriving Inhabited

namespace World

instance : EmptyCollection World := ⟨{}⟩

/-- The object that a reference leads to. -/
def find? (w : World) (r : ObjectRef) : Option Instance :=
  match r.id with
  | .stored serial => (w.objects[serial]?).filter fun o => o.lineage = r.lineage
  | .labelled _ | .unlabelled _ => none

def slot? (w : World) (r : ObjectRef) (key : SlotKey) : Option Value :=
  (w.find? r).bind fun o => o.slots.find? key

/-- The result of a cached property, if it was computed before. -/
def cached? (w : World) (r : ObjectRef) (property : String) : Option Value :=
  (w.find? r).bind fun o => o.cached.find? property

def allocate (w : World) (lineage : List String) : ObjectRef × World :=
  (⟨.stored w.objects.size, lineage⟩, { w with objects := w.objects.push { lineage } })

def update (w : World) (r : ObjectRef) (f : Instance → Instance) : World :=
  match r.id with
  | .stored serial => { w with objects := w.objects.modify serial f }
  | .labelled _ | .unlabelled _ => w

theorem find?_eq_some_iff {w : World} {r : ObjectRef} {o : Instance} :
    w.find? r = some o ↔
      ∃ i, r.id = .stored i ∧ w.objects[i]? = some o ∧ o.lineage = r.lineage := by
  cases hr : r.id with
  | stored i => simp [find?, hr]
  | labelled _ | unlabelled _ => simp [find?, hr]

theorem getElem?_update (w : World) (r : ObjectRef) (f : Instance → Instance) (i : Nat) :
    (w.update r f).objects[i]? =
      if r.id = .stored i then w.objects[i]?.map f else w.objects[i]? := by
  cases hr : r.id with
  | stored j => simp [update, hr, Array.getElem?_modify]
  | labelled _ | unlabelled _ => simp [update, hr]

theorem getElem?_allocate (w : World) (lineage : List String) (i : Nat) :
    (w.allocate lineage).2.objects[i]? =
      if i = w.objects.size then some { lineage } else w.objects[i]? := by
  simp [allocate, Array.getElem?_push]

end World

end GuardedObjects
