/-!
# Configuration

Whether the rules are enforced, and whether a friend that names nothing is an error.
-/

namespace GuardedObjects

inductive Mode where
  | enforced
  | passthrough
deriving DecidableEq, Repr

namespace Mode

def text : Mode → String
  | .enforced => "enforced"
  | .passthrough => "passthrough"

def ofText? : String → Option Mode
  | "enforced" => some .enforced
  | "passthrough" => some .passthrough
  | _ => none

end Mode

structure Config where
  mode : Mode := .enforced
  strictFriends : Bool := true
deriving DecidableEq, Repr, Inhabited

/-- Friends are looked up strictly only where rules are enforced at all. -/
def Config.isStrict (c : Config) : Bool := c.mode = .enforced && c.strictFriends

end GuardedObjects
