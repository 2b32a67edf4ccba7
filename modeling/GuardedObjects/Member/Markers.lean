/-!
# Markers

The marks a method carries about overriding.
-/

namespace GuardedObjects

structure Markers where
  isVirtual : Bool := false
  isAbstract : Bool := false
  isOverride : Bool := false
deriving DecidableEq, Repr

namespace Markers

def union (m n : Markers) : Markers where
  isVirtual := m.isVirtual || n.isVirtual
  isAbstract := m.isAbstract || n.isAbstract
  isOverride := m.isOverride || n.isOverride

instance : EmptyCollection Markers := ⟨{}⟩

instance : Union Markers := ⟨union⟩

def contains (m n : Markers) : Bool :=
  (m.isVirtual || !n.isVirtual) && (m.isAbstract || !n.isAbstract) &&
    (m.isOverride || !n.isOverride)

/-- Subclasses may override a method that is virtual or abstract. -/
def isOverridable (m : Markers) : Bool := m.isVirtual || m.isAbstract

/-- One bit per mark: virtual is 1, abstract 2 and override 4. -/
def bits (m : Markers) : Nat :=
  m.isVirtual.toNat + 2 * m.isAbstract.toNat + 4 * m.isOverride.toNat

def names (m : Markers) : List String :=
  (if m.isVirtual then ["virtual"] else []) ++ (if m.isAbstract then ["abstract"] else []) ++
    (if m.isOverride then ["override"] else [])

def text (m : Markers) : String :=
  if m.names.isEmpty then "none" else " | ".intercalate m.names

end Markers

end GuardedObjects
