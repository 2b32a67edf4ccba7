import GuardedObjects.Class.Basic
import GuardedObjects.Config

/-!
# Access

A private name belongs to the class that declares it, so one object may hold several attributes of
one private name. `MemberSite.locate` finds what the name means for a caller, `MemberSite.grant?`
decides by which rule the caller may use it, and `MemberSite.key` says under which key it is
stored.
-/

namespace GuardedObjects

inductive SlotKey where
  | shared (name : String)
  | priv (owner name : String)
deriving DecidableEq, Repr

namespace SlotKey

def name : SlotKey → String
  | .shared name | .priv _ name => name

def text : SlotKey → String
  | .shared name => name
  | .priv owner name => s!"{owner}::{name}"

/-- Shared keys come first, by name; private ones follow, by owner and then by name. -/
def precedes : SlotKey → SlotKey → Bool
  | .shared a, .shared b => a ≤ b
  | .shared _, .priv .. => true
  | .priv .., .shared _ => false
  | .priv a m, .priv b n => a < b || (a = b && m ≤ n)

end SlotKey

/-- The rule by which access to a restricted member is granted. -/
inductive Grant where
  | friendFunction
  | sameClass
  | inherited
  | friendClass
  | friendMethod
deriving DecidableEq, Repr

namespace Grant

def text : Grant → String
  | .friendFunction => "friend-function"
  | .sameClass => "same-class"
  | .inherited => "inherited"
  | .friendClass => "friend-class"
  | .friendMethod => "friend-method"

def isFriend : Grant → Bool
  | .friendFunction | .friendClass | .friendMethod => true
  | .sameClass | .inherited => false

end Grant

/-- A member name of a class, seen by a caller. -/
structure MemberSite where
  name : String
  visibility : Visibility
  /-- The class that declares the caller, if objects of the class descend from it. -/
  lexicalOwner : Option String
  /-- That class itself declares the member. -/
  lexicalDeclares : Bool
  /-- The first class of the resolution order that declares the member. -/
  declaringOwner : Option String
deriving DecidableEq, Repr

namespace MemberSite

def locate (t : ClassTable) (c : ClassInfo) (name : String) (caller : Caller) : MemberSite :=
  let lexical := caller.declaring?.bind fun declaring => t.lineageClass? c declaring
  { name
    visibility := Visibility.ofName name
    lexicalOwner := lexical.map ClassInfo.name
    lexicalDeclares := lexical.any fun k => k.declares name
    declaringOwner := (t.declaringClass? c name).map ClassInfo.name }

/-- The key of the member. A private one is stored under the class of the caller or, for friends,
of the declaration, whichever there is, and otherwise under `fallback`. -/
def key (m : MemberSite) (grant : Option Grant) (fallback : String) : SlotKey :=
  if m.visibility = .priv then
    let owner :=
      if grant.any Grant.isFriend then m.declaringOwner.or m.lexicalOwner
      else m.lexicalOwner.or m.declaringOwner
    .priv (owner.getD fallback) m.name
  else .shared m.name

/-- The first rule by which the caller may use the member on objects of exact class `c`. -/
def grant? (c : ClassInfo) (m : MemberSite) (caller : Caller) : Option Grant :=
  if caller.isFunction && decide (Friend.function caller.name ∈ c.friends) then
    some .friendFunction
  else
    match caller.receiver?, caller.receiver?.or caller.declaring? with
    | some receiver, _ =>
      if receiver = c.name && (m.visibility ≠ .priv || m.lexicalDeclares) then some .sameClass
      else if m.visibility = .prot && c.isSubclassOf receiver then some .inherited
      else if Friend.cls receiver ∈ c.friends then some .friendClass
      else if Friend.method receiver caller.name ∈ c.friends then some .friendMethod
      else none
    | none, some declaring =>
      if Friend.method declaring caller.name ∈ c.friends then some .friendMethod else none
    | none, none => none

/-- The key under which the caller reads the member of an object of exact class `c`. -/
def authorizeRead (mode : Mode) (c : ClassInfo) (m : MemberSite) (caller : Caller) :
    Except Fault SlotKey :=
  match mode with
  | .passthrough => .ok (m.key none c.name)
  | .enforced =>
    if !m.visibility.isRestricted || caller = .reflection then .ok (m.key none c.name)
    else if m.visibility = .priv && m.declaringOwner.isNone then
      .error (.undefinedMember c.name m.name)
    else
      match grant? c m caller with
      | some grant => .ok (m.key (some grant) c.name)
      | none => .error (.accessDenied c.name m.name)

end MemberSite

namespace ClassTable

variable (t : ClassTable) (c : ClassInfo)

/-- The type of the attribute that is stored under a key in objects of class `c`. -/
def attributeAt? : SlotKey → Option Ty
  | .shared name => t.attribute? c name
  | .priv owner name => (t.lineageClass? c owner).bind fun k => k.attribute? name

def methodAt? : SlotKey → Option Callable
  | .shared name => t.method? c name
  | .priv owner name => (t.lineageClass? c owner).bind fun k => k.method? name

def valueAt? : SlotKey → Option Value
  | .shared name => t.value? c name
  | .priv owner name => (t.lineageClass? c owner).bind fun k => k.value? name

end ClassTable

end GuardedObjects
