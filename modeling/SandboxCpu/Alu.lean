import SandboxCpu.Flags
/-!
# Arithmetic with flags

Addition, subtraction, multiplication and negation of words. Each outcome holds the low 32 bits of
the exact result, whether the unsigned reading left its range (the carry) and whether the signed
reading did (the overflow).
-/

namespace SandboxCpu

/-- The outcome of an arithmetic operation. -/
structure Alu.Outcome where
  /-- The low 32 bits of the result. -/
  value : UInt32
  /-- The unsigned result does not fit. -/
  carry : Bool
  /-- The signed result does not fit. -/
  overflow : Bool
  deriving DecidableEq, Repr

namespace Alu

/-- The flags after an outcome: all four are replaced. -/
def Outcome.apply (r : Outcome) (f : Flags) : Flags :=
  { f.updateZN r.value with carry := r.carry, overflow := r.overflow }

/-- The sum. A carry shows in a value below either term; an overflow in a sign that differs from
the sign of both terms. -/
def add (lhs rhs : UInt32) : Outcome :=
  let value := lhs + rhs
  { value
    carry := value < lhs
    overflow := (lhs ^^^ value) &&& (rhs ^^^ value) &&& 0x80000000 != 0 }

/-- The difference. The carry is a borrow; an overflow shows in terms of different signs and a
difference whose sign is not that of the first. -/
def sub (lhs rhs : UInt32) : Outcome :=
  let value := lhs - rhs
  { value
    carry := lhs < rhs
    overflow := (lhs ^^^ rhs) &&& (lhs ^^^ value) &&& 0x80000000 != 0 }

/-- The product, taken in 64 bits for both readings. -/
def mul (lhs rhs : UInt32) : Outcome :=
  let wide := lhs.toUInt64 * rhs.toUInt64
  let signed := lhs.toInt32.toInt64 * rhs.toInt32.toInt64
  { value := wide.toUInt32
    carry := 0xFFFFFFFF < wide
    overflow := signed != signed.toInt32.toInt64 }

/-- The negation, as the difference from zero. -/
def neg (value : UInt32) : Outcome := sub 0 value

end Alu

end SandboxCpu
