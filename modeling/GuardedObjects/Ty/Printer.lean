import GuardedObjects.Ty.Basic

/-!
# The text of a type

Types are written in the notation in which annotations are read.
-/

namespace GuardedObjects

def Primitive.text : Primitive → String
  | .int => "int"
  | .float => "float"
  | .str => "str"
  | .bool => "bool"
  | .bytes => "bytes"

def Container.text : Container → String
  | .list => "list"
  | .set => "set"
  | .dict => "dict"
  | .tuple | .varTuple => "tuple"

namespace Ty

mutual

/-- The annotation that denotes the type, except that a union inside a union is not bracketed. -/
def text : Ty → String
  | .any => "any"
  | .primitive kind => kind.text
  | .cls name => name
  | .generic base args =>
    if args.isEmpty then base.text
    else base.text ++ "[" ++ textOf ", " args ++ (if base = .varTuple then ", ...]" else "]")
  | .union alternatives => textOf " | " alternatives
  | .const t => "const[" ++ t.text ++ "]"
  | .noValue => "None"

def textOf (separator : String) : List Ty → String
  | [] => ""
  | t :: ts => t.text ++ if ts.isEmpty then "" else separator ++ textOf separator ts

end

instance : ToString Ty := ⟨text⟩

end Ty

end GuardedObjects
