import GuardedObjects.Ty.Basic
import GuardedObjects.Value.Basic

/-!
# Which values a type admits

Primitive types admit exactly their own kind, a class admits the objects that are instances of it,
and const wrappers admit what they wrap. A container without arguments admits all containers of its
kind; otherwise its items have to be admitted.
-/

namespace GuardedObjects

def Primitive.admits : Primitive → Value → Bool
  | .int, .int _ => true
  | .float, .float _ => true
  | .str, .str _ => true
  | .bool, .bool _ => true
  | .bytes, .bytes _ => true
  | _, _ => false

namespace Ty

mutual

def admits : Ty → Value → Bool
  | .any, _ => true
  | .noValue, v => v.isNone
  | .const t, v => t.admits v
  | .union alternatives, v => someAdmits alternatives v
  | .primitive kind, v => kind.admits v
  | .cls name, .object r => r.isInstanceOf name
  | .cls _, _ => false
  | .generic .list args, .list items => elementAdmits args items
  | .generic .set args, .set items => elementAdmits args items
  | .generic .varTuple args, .tuple items => elementAdmits args items
  | .generic .tuple args, .tuple items => args.isEmpty || eachAdmits args items
  | .generic .dict args, .dict entries => entryAdmits args entries
  | .generic _ _, _ => false

def someAdmits : List Ty → Value → Bool
  | [], _ => false
  | t :: ts, v => t.admits v || someAdmits ts v

/-- The first type, if there is one, admits every item. -/
def elementAdmits : List Ty → List Value → Bool
  | [], _ => true
  | t :: _, items => items.all fun v => t.admits v

/-- There are as many types as items, and each type admits its item. -/
def eachAdmits : List Ty → List Value → Bool
  | [], [] => true
  | t :: ts, v :: vs => t.admits v && eachAdmits ts vs
  | _, _ => false

/-- The two types, if there are exactly two, admit every key and every value. -/
def entryAdmits : List Ty → List (Value × Value) → Bool
  | [k, v], entries => entries.all fun e => k.admits e.1 && v.admits e.2
  | _, _ => true

end

end Ty

end GuardedObjects
