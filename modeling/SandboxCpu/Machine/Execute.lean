import SandboxCpu.Alu
import SandboxCpu.Machine.SystemCall
/-!
# Executing instructions

What each instruction does to the machine, and where execution goes on. The work is done in place, in
the order written here, and a failure takes nothing back. So the order matters: operands are read
before the destination is written, and whatever may fail comes before the first change.

Arithmetic replaces all four flags; division, logic, shifts and `test` set the zero and negative flags
and keep the others; every other instruction leaves the flags alone.
-/

namespace SandboxCpu

/-- Where execution goes after an instruction. -/
inductive Flow
  /-- To the word after it. -/
  | next
  /-- To another address. -/
  | jump (target : UInt32)
  /-- Nowhere: the guest has stopped. -/
  | halt
  deriving DecidableEq, Repr

/-- The address after an instruction at `pc`. A stopped guest stands behind its last instruction. -/
def Flow.nextPc (flow : Flow) (pc : UInt32) : UInt32 :=
  match flow with
  | next | halt => pc + 4
  | jump target => target

/-- Whether a jump is taken. -/
def JumpOp.taken (op : JumpOp) (f : Flags) : Bool :=
  match op with
  | jmp | call => true
  | jz => f.zero
  | jnz => !f.zero
  | jc => f.carry
  | jnc => !f.carry

/-- Work on a machine in place. What was done before a failure stays done. -/
abbrev InPlace (κ α : Type) := ExceptT Fault (StateM (Machine κ)) α

namespace Machine

variable {κ : Type}

/-- Replaces the processor state. -/
def withCpu (m : Machine κ) (cpu : Cpu) : Machine κ := { m with cpu }

end Machine

namespace InPlace

variable {κ : Type}

/-- Does the work: its answer, and the machine that it leaves behind. -/
def on {α : Type} (work : InPlace κ α) (m : Machine κ) : Except Fault α × Machine κ :=
  StateT.run (ExceptT.run work) m

/-! ## Registers, flags and stack pointer -/

/-- The contents of a register. -/
def reg (r : Reg) : InPlace κ UInt32 := return (← get).cpu.reg r

/-- Changes the processor state. -/
def modifyCpu (f : Cpu → Cpu) : InPlace κ Unit := modify fun m => m.withCpu (f m.cpu)

/-- Replaces the contents of a register. -/
def setReg (r : Reg) (value : UInt32) : InPlace κ Unit := modifyCpu (·.setReg r value)

/-- Changes the flags. -/
def modifyFlags (f : Flags → Flags) : InPlace κ Unit :=
  modifyCpu fun c => { c with flags := f c.flags }

/-- Moves the stack pointer. -/
def setSp (sp : UInt32) : InPlace κ Unit := modifyCpu fun c => { c with sp }

/-! ## Memory -/

/-- What memory answers to the instruction at `pc`. -/
def ofMemory {α : Type} (pc : UInt32) (answer : Except MemoryError α) : InPlace κ α :=
  match answer with
  | .ok a => return a
  | .error e => throw ⟨pc, .memory e⟩

/-- The sum of the source registers. -/
def effectiveAddress (r : RegisterArgs) : InPlace κ UInt32 :=
  return (← reg r.rs1) + (← reg r.rs2)

/-- Changes memory in a way that it may refuse. -/
def modifyMemory (pc : UInt32) (change : Memory → Except MemoryError Memory) :
    InPlace κ Unit := do
  let memory ← ofMemory pc (change (← get).memory)
  modify fun m => { m with memory }

/-- Stores a word. -/
def writeWord (pc addr value : UInt32) : InPlace κ Unit :=
  modifyMemory pc (·.writeWord addr value .writing)

/-- Stores a byte. -/
def writeByte (pc addr : UInt32) (value : UInt8) : InPlace κ Unit :=
  modifyMemory pc (·.writeByte addr value .writing)

/-- Pushes a word: it goes below the stack pointer, which then points at it. -/
def pushWord (pc value : UInt32) : InPlace κ Unit := do
  let sp := (← get).cpu.sp - 4
  writeWord pc sp value
  setSp sp

/-- The word that the stack pointer points at. -/
def topWord (pc : UInt32) : InPlace κ UInt32 := do
  let m ← get
  ofMemory pc (m.memory.readWord m.cpu.sp .reading)

/-- Moves the stack pointer up by a word. -/
def dropWord : InPlace κ Unit := do setSp ((← get).cpu.sp + 4)

/-! ## Families of operations -/

/-- Stores an arithmetic outcome and replaces all flags. -/
def writeResult (rd : Reg) (r : Alu.Outcome) : InPlace κ Unit := do
  setReg rd r.value
  modifyFlags r.apply

/-- Arithmetic on two registers. -/
def arith (r : RegisterArgs) (op : UInt32 → UInt32 → Alu.Outcome) : InPlace κ Unit := do
  writeResult r.rd (op (← reg r.rs1) (← reg r.rs2))

/-- Division and remainder, which a zero divisor makes fail. -/
def divide (pc : UInt32) (r : RegisterArgs) (op : UInt32 → UInt32 → UInt32) :
    InPlace κ Unit := do
  let a ← reg r.rs1
  let b ← reg r.rs2
  if b = 0 then throw ⟨pc, .divideByZero⟩
  setReg r.rd (op a b)
  modifyFlags (·.updateZN (op a b))

/-- Logic and shifts, which set the zero and negative flags. -/
def logic (r : RegisterArgs) (op : UInt32 → UInt32 → UInt32) : InPlace κ Unit := do
  let value := op (← reg r.rs1) (← reg r.rs2)
  setReg r.rd value
  modifyFlags (·.updateZN value)

/-- Stores one or zero. -/
def setIf (r : RegisterArgs) (condition : UInt32 → UInt32 → Bool) : InPlace κ Unit := do
  let truth := condition (← reg r.rs1) (← reg r.rs2)
  setReg r.rd (if truth then 1 else 0)

/-! ## Instructions -/

/-- Executes an operation on registers at address `pc`. -/
def executeRegister (pc : UInt32) (op : RegisterOp) (r : RegisterArgs) : InPlace κ Unit := do
  match op with
  | .add => arith r Alu.add
  | .sub => arith r Alu.sub
  | .mul => arith r Alu.mul
  | .neg => writeResult r.rd (Alu.neg (← reg r.rs1))
  | .div => divide pc r (· / ·)
  | .mod => divide pc r (· % ·)
  | .and => logic r (· &&& ·)
  | .or => logic r (· ||| ·)
  | .xor => logic r (· ^^^ ·)
  | .not => logic r fun a _ => ~~~a
  | .shl => logic r fun a b => a <<< (b &&& 31)
  | .shr => logic r fun a b => a >>> (b &&& 31)
  | .load =>
    let addr ← effectiveAddress r
    let value ← ofMemory pc ((← get).memory.readWord addr .reading)
    setReg r.rd value
  | .store =>
    let addr ← effectiveAddress r
    let value ← reg r.rd
    writeWord pc addr value
  | .loadb =>
    let addr ← effectiveAddress r
    let value ← ofMemory pc ((← get).memory.readByte addr .reading)
    setReg r.rd value.toUInt32
  | .storeb =>
    let addr ← effectiveAddress r
    let value ← reg r.rd
    writeByte pc addr value.toUInt8
  | .push => pushWord pc (← reg r.rs1)
  | .pop =>
    let value ← topWord pc
    setReg r.rd value
    dropWord
  | .mov => setReg r.rd (← reg r.rs1)
  | .cmp =>
    let outcome := Alu.sub (← reg r.rs1) (← reg r.rs2)
    modifyFlags outcome.apply
  | .test =>
    let value := (← reg r.rs1) &&& (← reg r.rs2)
    modifyFlags (·.updateZN value)
  | .slt => setIf r fun a b => a.toInt32 < b.toInt32
  | .sle => setIf r fun a b => a.toInt32 ≤ b.toInt32
  | .seq => setIf r fun a b => a = b
  | .sne => setIf r fun a b => a ≠ b

/-- Executes an operation on a register and an immediate. -/
def executeImmediate (op : ImmediateOp) (args : ImmediateArgs) : InPlace κ Unit := do
  let imm := args.value.toUInt32
  match op with
  | .addi => writeResult args.rd (Alu.add (← reg args.rd) imm)
  | .loadi => setReg args.rd imm
  | .lui => setReg args.rd (imm <<< 16)

/-- Executes a jump at address `pc`. A call pushes the address after it first. -/
def executeJump (pc : UInt32) (op : JumpOp) (args : JumpArgs) : InPlace κ Flow := do
  match op with
  | .call =>
    pushWord pc (pc + 4)
    return .jump args.target
  | op => return if op.taken (← get).cpu.flags then .jump args.target else .next

/-- Executes an operation without operands at address `pc`. -/
def executeBare [Console κ] (pc : UInt32) (op : BareOp) : InPlace κ Flow := do
  match op with
  | .nop => return .next
  | .halt =>
    modifyCpu fun c => { c with halted := true }
    return .halt
  | .ret =>
    let target ← topWord pc
    dropWord
    return .jump target
  | .syscall =>
    modify Machine.callHost
    return if (← get).cpu.halted then .halt else .next

/-- Executes an instruction at address `pc` and says where execution goes on. The program counter is
left to the caller. -/
def execute [Console κ] (pc : UInt32) (i : Instruction) : InPlace κ Flow := do
  match i with
  | .bare op => executeBare pc op
  | .register op args =>
    executeRegister pc op args
    return .next
  | .immediate op args =>
    executeImmediate op args
    return .next
  | .jump op args => executeJump pc op args

end InPlace

end SandboxCpu
