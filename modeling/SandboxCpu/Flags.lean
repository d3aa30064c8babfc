/-!
# Condition flags

The four condition flags of the processor. A set of flags also serves as a mask that says which
flags an operation touches.
-/

namespace SandboxCpu

/-- The condition flags. -/
structure Flags where
  /-- The last result was zero. -/
  zero : Bool := false
  /-- The last result had its sign bit set. -/
  negative : Bool := false
  /-- The last arithmetic left the unsigned range. -/
  carry : Bool := false
  /-- The last arithmetic left the signed range. -/
  overflow : Bool := false
  deriving DecidableEq, Repr

namespace Flags

/-- No flag. -/
def none : Flags := {}

/-- The flags as a number, zero being the lowest bit and overflow the highest. -/
def bits (f : Flags) : Nat :=
  f.zero.toNat + 2 * f.negative.toNat + 4 * f.carry.toNat + 8 * f.overflow.toNat

/-- Whether every flag of `mask` is set. -/
def contains (f mask : Flags) : Bool :=
  (!mask.zero || f.zero) && (!mask.negative || f.negative) &&
    (!mask.carry || f.carry) && (!mask.overflow || f.overflow)

/-- Gives every flag of `mask` the value `value` and leaves the others. -/
def set (f mask : Flags) (value : Bool) : Flags where
  zero := if mask.zero then value else f.zero
  negative := if mask.negative then value else f.negative
  carry := if mask.carry then value else f.carry
  overflow := if mask.overflow then value else f.overflow

/-- Sets the zero and negative flags after a result and keeps the other two. -/
def updateZN (f : Flags) (result : UInt32) : Flags :=
  { f with zero := result == 0, negative := result &&& 0x80000000 != 0 }

/-- One letter for each flag that is set and a dash for each that is not. -/
def text (f : Flags) : String :=
  String.ofList [if f.zero then 'Z' else '-', if f.negative then 'N' else '-',
    if f.carry then 'C' else '-', if f.overflow then 'V' else '-']

theorem contains_set (f mask : Flags) : (f.set mask true).contains mask = true := by
  rcases mask with ⟨a, b, c, d⟩
  cases a <;> cases b <;> cases c <;> cases d <;> simp [contains, set]

end Flags

end SandboxCpu
