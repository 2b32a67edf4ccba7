import GuardedObjects.Value.Basic

/-!
# Values of host data

How data of the surrounding program becomes a value.
-/

namespace GuardedObjects

class ToValue (α : Type) where
  toValue : α → Value

export ToValue (toValue)

instance : ToValue Value := ⟨id⟩
instance : ToValue Unit := ⟨fun _ => .none⟩
instance : ToValue Bool := ⟨.bool⟩
instance : ToValue Int64 := ⟨.int⟩
instance : ToValue Int32 := ⟨fun n => .int n.toInt64⟩
instance : ToValue Binary64 := ⟨.float⟩
instance : ToValue String := ⟨.str⟩
instance : ToValue ObjectRef := ⟨.object⟩

instance {α : Type} [ToValue α] : ToValue (List α) := ⟨fun items => .list (items.map toValue)⟩

/-- Absent data becomes the absent value. -/
instance {α : Type} [ToValue α] : ToValue (Option α) where
  toValue
    | none => .none
    | some a => toValue a

end GuardedObjects
