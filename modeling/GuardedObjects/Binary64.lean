/-!
# Binary64 numbers

Double-precision numbers as their 64 bits, with the equality of IEEE 754: no NaN equals anything,
and the two zeros are equal.
-/

namespace GuardedObjects

structure Binary64 where
  bits : UInt64
deriving DecidableEq, Repr

namespace Binary64

def magnitude (x : Binary64) : UInt64 := x.bits &&& 0x7fffffffffffffff

def isNaN (x : Binary64) : Bool := 0x7ff0000000000000 < x.magnitude

def isZero (x : Binary64) : Bool := x.magnitude = 0

/-- Equality of numbers, which is not equality of bits. -/
def equal (x y : Binary64) : Bool :=
  !x.isNaN && !y.isNaN && (x.bits = y.bits || (x.isZero && y.isZero))

/-- The same number with every NaN written as the positive quiet one without payload. -/
def canonical (x : Binary64) : Binary64 := if x.isNaN then ⟨0x7ff8000000000000⟩ else x

theorem equal_self (x : Binary64) : x.equal x = !x.isNaN := by simp [equal]

theorem equal_comm (x y : Binary64) : x.equal y = y.equal x := by
  simp only [equal, eq_comm (a := x.bits), Bool.and_comm x.isZero, Bool.and_comm (!x.isNaN)]

end Binary64

end GuardedObjects
