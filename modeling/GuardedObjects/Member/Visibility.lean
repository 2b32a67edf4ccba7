/-!
# Visibility

Who may use a member is written into its name, by the underscores at its ends.
-/

namespace GuardedObjects

inductive Visibility where
  | special
  | priv
  | prot
  | pub
deriving DecidableEq, Repr

namespace Visibility

/-- Two underscores in front and two behind, that do not overlap and have something in between,
mark a special member; otherwise two in front a private and one a protected member. -/
def ofName (name : String) : Visibility :=
  match name.toList with
  | '_' :: '_' :: rest =>
    if 2 < rest.length && rest.reverse.take 2 = ['_', '_'] then .special else .priv
  | '_' :: _ => .prot
  | _ => .pub

def isRestricted : Visibility → Bool
  | .priv | .prot => true
  | .special | .pub => false

def text : Visibility → String
  | .special => "Special"
  | .priv => "Private"
  | .prot => "Protected"
  | .pub => "Public"

end Visibility

def constructorName : String := "__init__"

/-- The members through which attribute access itself is customised. -/
def attributeHooks : List String :=
  ["__getattr__", "__setattr__", "__delattr__", "__getattribute__"]

end GuardedObjects
