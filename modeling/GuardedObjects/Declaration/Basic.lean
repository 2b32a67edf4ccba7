import GuardedObjects.Annotation.Parser
import GuardedObjects.Class.Basic
import GuardedObjects.Declaration.Error

/-!
# Declarations

Classes and functions as they are handed in: types may still be texts, and bases and friends are
names. A class is built up from an empty one, one item at a time.
-/

namespace GuardedObjects

inductive DeclaredType where
  | text (source : String)
  | type (t : Ty)

/-- The type itself; a text that denotes none is reported for the given member. -/
def DeclaredType.resolve (d : DeclaredType) (member : String) : Except DeclarationError Ty :=
  match d with
  | .type t => .ok t
  | .text source => (Ty.ofText source).mapError (.invalidType member)

structure ParamDecl where
  name : String
  kind : ParamKind := .regular
  type : Option DeclaredType := none
  default : Option Value := none

structure CallableDecl where
  kind : CallableKind := .method
  receiverType : Option DeclaredType := none
  params : List ParamDecl := []
  returns : Option DeclaredType := none
  markers : Markers := ∅
  body : Option Body := none

inductive MemberDecl where
  | callable (decl : CallableDecl)
  | value (v : Value)

namespace MemberDecl

def callable? : MemberDecl → Option CallableDecl
  | .callable decl => some decl
  | .value _ => none

def value? : MemberDecl → Option Value
  | .callable _ => none
  | .value v => some v

end MemberDecl

/-- A class as it is handed in. `badFriends` are the texts that denote no friend. -/
structure ClassDecl where
  name : String
  bases : List String := []
  members : Table String MemberDecl := ∅
  types : Table String DeclaredType := ∅
  friends : List FriendRef := []
  badFriends : List String := []

namespace ClassDecl

def extend (c : ClassDecl) (base : String) : ClassDecl := { c with bases := c.bases ++ [base] }

/-- Declares an attribute, in place of an earlier one of that name. -/
def field (c : ClassDecl) (name : String) (type : DeclaredType) : ClassDecl :=
  { c with types := c.types.insert name type }

/-- Declares a member, in place of an earlier one of that name. -/
def member (c : ClassDecl) (name : String) (m : MemberDecl) : ClassDecl :=
  { c with members := c.members.insert name m }

def value (c : ClassDecl) (name : String) (v : Value) : ClassDecl := c.member name (.value v)

def method (c : ClassDecl) (name : String) (decl : CallableDecl) : ClassDecl :=
  c.member name (.callable decl)

def constructor (c : ClassDecl) (decl : CallableDecl) : ClassDecl := c.method constructorName decl

def fieldWithDefault (c : ClassDecl) (name : String) (type : DeclaredType) (v : Value) :
    ClassDecl :=
  (c.field name type).value name v

def friendText (c : ClassDecl) (source : String) : ClassDecl :=
  match FriendRef.ofText? source with
  | some friend => { c with friends := c.friends ++ [friend] }
  | none => { c with badFriends := c.badFriends ++ [source] }

def friend (c : ClassDecl) (f : Friend) : ClassDecl :=
  { c with friends := c.friends ++ [.specified f] }

end ClassDecl

structure FunctionDecl where
  name : String
  callable : CallableDecl

end GuardedObjects
