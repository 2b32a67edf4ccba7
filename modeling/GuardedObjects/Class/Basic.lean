import GuardedObjects.Call.Callable
import GuardedObjects.Friend
import GuardedObjects.Table

/-!
# Classes

What a class declares itself, with the names of its ancestors in resolution order, and the table of
classes in which these names are looked up. A member is inherited from the first class of the
resolution order that declares it.
-/

namespace GuardedObjects

/-- A class. `ancestors` is its resolution order without the class itself, and `friends` is empty
until the class is linked. -/
structure ClassInfo where
  name : String
  bases : List String := []
  ancestors : List String := []
  attributes : Table String Ty := ∅
  methods : Table String Callable := ∅
  values : Table String Value := ∅
  declaredFriends : List FriendRef := []
  friends : FriendSet := ∅
deriving Inhabited

namespace ClassInfo

/-- The resolution order: the class itself and then its ancestors. -/
def order (c : ClassInfo) : List String := c.name :: c.ancestors

def isSubclassOf (c : ClassInfo) (name : String) : Bool := c.order.contains name

def attribute? (c : ClassInfo) (member : String) : Option Ty := c.attributes.find? member

def method? (c : ClassInfo) (member : String) : Option Callable := c.methods.find? member

def value? (c : ClassInfo) (member : String) : Option Value := c.values.find? member

/-- The class itself declares the member as an attribute, a method or a value. -/
def declares (c : ClassInfo) (member : String) : Bool :=
  c.attributes.contains member || c.methods.contains member || c.values.contains member

end ClassInfo

/-- Classes in the order in which they were declared. -/
structure ClassTable where
  classes : List ClassInfo := []
deriving Inhabited

namespace ClassTable

instance : EmptyCollection ClassTable := ⟨{}⟩

def find? (t : ClassTable) (name : String) : Option ClassInfo :=
  t.classes.find? fun c => c.name = name

def contains (t : ClassTable) (name : String) : Bool := (t.find? name).isSome

def select (t : ClassTable) (names : List String) : List ClassInfo := names.filterMap t.find?

def push (t : ClassTable) (c : ClassInfo) : ClassTable := ⟨t.classes ++ [c]⟩

def lineage (t : ClassTable) (c : ClassInfo) : List ClassInfo := c :: t.select c.ancestors

def lineageClass? (t : ClassTable) (c : ClassInfo) (name : String) : Option ClassInfo :=
  (t.lineage c).find? fun k => k.name = name

/-- The first class of the resolution order that declares the member. -/
def declaringClass? (t : ClassTable) (c : ClassInfo) (member : String) : Option ClassInfo :=
  (t.lineage c).find? fun k => k.declares member

/-- The first class of a lineage that has what `f` looks for, and what it has. -/
def firstOwner? {α : Type} (f : ClassInfo → Option α) (cs : List ClassInfo) :
    Option (ClassInfo × α) :=
  cs.findSome? fun c => (f c).map (c, ·)

def attribute? (t : ClassTable) (c : ClassInfo) (member : String) : Option Ty :=
  (t.lineage c).findSome? fun k => k.attribute? member

def method? (t : ClassTable) (c : ClassInfo) (member : String) : Option Callable :=
  (t.lineage c).findSome? fun k => k.method? member

def value? (t : ClassTable) (c : ClassInfo) (member : String) : Option Value :=
  (t.lineage c).findSome? fun k => k.value? member

end ClassTable

end GuardedObjects
