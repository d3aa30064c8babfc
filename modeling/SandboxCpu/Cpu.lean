import SandboxCpu.Flags
import SandboxCpu.Isa.Instruction
import SandboxCpu.Memory.AddressSpace
/-!
# The processor state

Sixteen general registers, the program counter, the stack and frame pointers, the condition flags and
the halted bit. Instructions name registers by `Reg`, which is always in range; a host names them by a
number that may not be.
-/

namespace SandboxCpu

/-- There is no register of that number. -/
structure RegisterError where
  reg : Nat
  deriving DecidableEq, Repr

/-- The wording of a register error. -/
def RegisterError.message (e : RegisterError) : String :=
  "寄存器访问错误: 寄存器 r" ++ toString e.reg ++ " 超出范围"

/-- The processor state. -/
structure Cpu where
  registers : Vector UInt32 16
  /-- The address of the next instruction. -/
  pc : UInt32
  sp : UInt32
  /-- The frame pointer, which no instruction touches. -/
  fp : UInt32
  flags : Flags
  /-- Whether the guest has stopped. -/
  halted : Bool
  deriving DecidableEq

namespace Cpu

/-- The state at reset, with execution about to start at `pc`. -/
def initial (pc : UInt32) : Cpu where
  registers := Vector.replicate 16 0
  pc := pc
  sp := Memory.stackTop
  fp := Memory.stackTop
  flags := {}
  halted := false

/-- The contents of a register. -/
def reg (c : Cpu) (r : Reg) : UInt32 := c.registers[r]

/-- Replaces the contents of a register. -/
def setReg (c : Cpu) (r : Reg) (value : UInt32) : Cpu :=
  { c with registers := c.registers.set r value }

/-- The contents of the register of a number. -/
def reg? (c : Cpu) (n : Nat) : Except RegisterError UInt32 :=
  if h : n < 16 then .ok (c.reg ⟨n, h⟩) else .error ⟨n⟩

/-- Replaces the contents of the register of a number. -/
def setReg? (c : Cpu) (n : Nat) (value : UInt32) : Except RegisterError Cpu :=
  if h : n < 16 then .ok (c.setReg ⟨n, h⟩ value) else .error ⟨n⟩

theorem reg_setReg (c : Cpu) (r s : Reg) (value : UInt32) :
    (c.setReg r value).reg s = if r = s then value else c.reg s := by
  simp only [reg, setReg, Fin.getElem_fin, Vector.getElem_set, Fin.ext_iff]

/-- The name of register `n` and its contents, the name padded to two places. -/
private def registerText (c : Cpu) (n : Nat) : String :=
  let name := toString n
  "  r" ++ name ++ (if name.length < 2 then " " else "") ++ ": " ++
    Text.word (c.registers[n]?.getD 0)

/-- The state as a block of lines: the pointers and flags, then the registers, four to a line. -/
def dump (c : Cpu) : String :=
  "=== CPU State ===\n" ++
  "PC: " ++ Text.word c.pc ++ "  SP: " ++ Text.word c.sp ++ "  FP: " ++ Text.word c.fp ++
  "  Flags: " ++ c.flags.text ++ (if c.halted then "  [halted]" else "") ++ "\n\n" ++
  "Registers:\n" ++
  String.join ([0, 4, 8, 12].map fun n =>
    String.join ((List.range' n 4).map c.registerText) ++ "\n")

end Cpu

end SandboxCpu
