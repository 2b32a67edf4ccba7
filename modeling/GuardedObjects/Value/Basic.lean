import GuardedObjects.Binary64

/-!
# Values

The values that attributes hold and calls pass around, and their equality. Containers keep their
items in order and may repeat them, sets and dictionaries included. An object value is a reference:
it names the object and carries the classes that the object was made with, own class first.
-/

namespace GuardedObjects

/-- The name of an object. An instance of a declared class is stored under its serial number. The
other objects come from outside: a labelled one is the same wherever its label occurs. -/
inductive ObjectId where
  | stored (serial : Nat)
  | labelled (label : Int)
  | unlabelled (serial : Nat)
deriving DecidableEq, Repr

structure ObjectRef where
  id : ObjectId
  lineage : List String
deriving DecidableEq, Repr

namespace ObjectRef

/-- The exact class of the object, empty for an outside object of no class. -/
def className (r : ObjectRef) : String := r.lineage.headD ""

def isInstanceOf (r : ObjectRef) (cls : String) : Bool := r.lineage.contains cls

def isOutside (r : ObjectRef) : Bool :=
  match r.id with
  | .stored _ => false
  | .labelled _ | .unlabelled _ => true

end ObjectRef

inductive Value where
  | none
  | bool (b : Bool)
  | int (n : Int64)
  | float (x : Binary64)
  | str (s : String)
  | bytes (data : List UInt8)
  | list (items : List Value)
  | tuple (items : List Value)
  | set (items : List Value)
  | dict (entries : List (Value × Value))
  | object (ref : ObjectRef)
deriving Inhabited

namespace Value

def isNone : Value → Bool
  | .none => true
  | _ => false

def bool? : Value → Option Bool
  | .bool b => some b
  | _ => Option.none

def int? : Value → Option Int64
  | .int n => some n
  | _ => Option.none

def float? : Value → Option Binary64
  | .float x => some x
  | _ => Option.none

def str? : Value → Option String
  | .str s => some s
  | _ => Option.none

def object? : Value → Option ObjectRef
  | .object r => some r
  | _ => Option.none

/-- The name of the value's type: for an object its exact class. -/
def typeName : Value → String
  | .none => "None"
  | .bool _ => "bool"
  | .int _ => "int"
  | .float _ => "float"
  | .str _ => "str"
  | .bytes _ => "bytes"
  | .list _ => "list"
  | .tuple _ => "tuple"
  | .set _ => "set"
  | .dict _ => "dict"
  | .object r => r.className

mutual

/-- Equality of values: numbers as IEEE 754 has it, containers of one kind item by item in order,
objects by identity, and values of different kinds never. -/
def equal : Value → Value → Bool
  | .none, .none => true
  | .bool a, .bool b => a = b
  | .int a, .int b => a = b
  | .float a, .float b => a.equal b
  | .str a, .str b => a = b
  | .bytes a, .bytes b => a = b
  | .list as, .list bs => equalItems as bs
  | .tuple as, .tuple bs => equalItems as bs
  | .set as, .set bs => equalItems as bs
  | .dict as, .dict bs => equalEntries as bs
  | .object a, .object b => a = b
  | _, _ => false

def equalItems : List Value → List Value → Bool
  | [], [] => true
  | a :: as, b :: bs => equal a b && equalItems as bs
  | _, _ => false

def equalEntries : List (Value × Value) → List (Value × Value) → Bool
  | [], [] => true
  | (k, v) :: as, (l, w) :: bs => equal k l && equal v w && equalEntries as bs
  | _, _ => false

end

end Value

end GuardedObjects
