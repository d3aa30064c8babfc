import SandboxCpu.Memory.AddressSpace
/-!
# Faults

What ends the execution of a single instruction for good. A fault names the instruction's address and
what was wrong with it.
-/

namespace SandboxCpu

/-- What was wrong with an instruction. -/
inductive FaultCause
  /-- It could not be fetched. -/
  | fetch (source : MemoryError)
  /-- Its word has no known operation code. -/
  | invalidOpcode (word : UInt32)
  /-- Memory refused an access that it made. -/
  | memory (source : MemoryError)
  | divideByZero
  deriving DecidableEq, Repr

/-- A failed instruction. -/
structure Fault where
  pc : UInt32
  cause : FaultCause
  deriving DecidableEq, Repr

namespace Fault

/-- The wording of a fault. -/
def message (f : Fault) : String :=
  match f.cause with
  | .fetch source => "取指失败: pc=" ++ Text.address f.pc ++ ": " ++ source.message
  | .invalidOpcode word => "非法指令: " ++ Text.word word ++ " at " ++ Text.address f.pc
  | .memory source => "访存错误: pc=" ++ Text.address f.pc ++ ": " ++ source.message
  | .divideByZero => "除零错误: pc=" ++ Text.address f.pc

/-- The memory error behind a fault, if there is one. -/
def source? (f : Fault) : Option MemoryError :=
  match f.cause with
  | .fetch source | .memory source => some source
  | .invalidOpcode _ | .divideByZero => none

end Fault

end SandboxCpu
