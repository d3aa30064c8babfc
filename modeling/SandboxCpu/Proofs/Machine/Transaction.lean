import SandboxCpu.Machine.Step

/-!
# Instructions as transactions

The machine executes an instruction in place, step by step, and a failure does
not take back what was done before it.  Here every instruction is read as a
transaction: it gives the machine after it, or a fault that stands alone.

The two readings agree (`InPlace.on_execute`): in place, a failed instruction
leaves just the machine that it found.  This holds because each instruction
does what may fail before it changes anything, and it would not hold of a
`push` that moved the stack pointer first, or of a `pop` that set its register
before it read the word.

From here on only the transactions are reasoned about.  `Machine.attempt` is the
transaction of a whole step up to its success, `Machine.retire` what follows it.
-/

namespace SandboxCpu

namespace Cpu

/-- Stores an arithmetic outcome and replaces all flags. -/
def setOutcome (c : Cpu) (rd : Reg) (r : Alu.Outcome) : Cpu :=
  { c.setReg rd r.value with flags := r.apply c.flags }

/-- Stores a result and sets the zero and negative flags after it. -/
def setResult (c : Cpu) (rd : Reg) (value : UInt32) : Cpu :=
  { c.setReg rd value with flags := c.flags.updateZN value }

/-- Stores one or zero. -/
def setTruth (c : Cpu) (rd : Reg) (b : Bool) : Cpu := c.setReg rd (if b then 1 else 0)

end Cpu

namespace Machine

variable {κ : Type}

/-! ## Instructions -/

/-- Pushes a word: it goes below the stack pointer, which then points at it. -/
def pushWord (m : Machine κ) (value : UInt32) : Except MemoryError (Machine κ) :=
  let sp := m.cpu.sp - 4
  return { m with memory := ← m.memory.writeWord sp value .writing, cpu := { m.cpu with sp } }

/-- The word that the stack pointer points at. -/
def topWord (m : Machine κ) : Except MemoryError UInt32 := m.memory.readWord m.cpu.sp .reading

/-- Executes an operation on registers at address `pc`. -/
def executeRegister (m : Machine κ) (pc : UInt32) (op : RegisterOp) (r : RegisterArgs) :
    Except Fault (Machine κ) :=
  let c := m.cpu
  let d := c.reg r.rd
  let a := c.reg r.rs1
  let b := c.reg r.rs2
  let fault (e : MemoryError) : Fault := ⟨pc, .memory e⟩
  match op with
  | .add => .ok (m.withCpu (c.setOutcome r.rd (Alu.add a b)))
  | .sub => .ok (m.withCpu (c.setOutcome r.rd (Alu.sub a b)))
  | .mul => .ok (m.withCpu (c.setOutcome r.rd (Alu.mul a b)))
  | .neg => .ok (m.withCpu (c.setOutcome r.rd (Alu.neg a)))
  | .div =>
    if b = 0 then .error ⟨pc, .divideByZero⟩ else .ok (m.withCpu (c.setResult r.rd (a / b)))
  | .mod =>
    if b = 0 then .error ⟨pc, .divideByZero⟩ else .ok (m.withCpu (c.setResult r.rd (a % b)))
  | .and => .ok (m.withCpu (c.setResult r.rd (a &&& b)))
  | .or => .ok (m.withCpu (c.setResult r.rd (a ||| b)))
  | .xor => .ok (m.withCpu (c.setResult r.rd (a ^^^ b)))
  | .not => .ok (m.withCpu (c.setResult r.rd (~~~a)))
  | .shl => .ok (m.withCpu (c.setResult r.rd (a <<< (b &&& 31))))
  | .shr => .ok (m.withCpu (c.setResult r.rd (a >>> (b &&& 31))))
  | .load =>
    match m.memory.readWord (a + b) .reading with
    | .error e => .error (fault e)
    | .ok value => .ok (m.withCpu (c.setReg r.rd value))
  | .store =>
    match m.memory.writeWord (a + b) d .writing with
    | .error e => .error (fault e)
    | .ok memory => .ok { m with memory }
  | .loadb =>
    match m.memory.readByte (a + b) .reading with
    | .error e => .error (fault e)
    | .ok value => .ok (m.withCpu (c.setReg r.rd value.toUInt32))
  | .storeb =>
    match m.memory.writeByte (a + b) d.toUInt8 .writing with
    | .error e => .error (fault e)
    | .ok memory => .ok { m with memory }
  | .push =>
    match m.pushWord a with
    | .error e => .error (fault e)
    | .ok m => .ok m
  | .pop =>
    match m.topWord with
    | .error e => .error (fault e)
    | .ok value => .ok (m.withCpu { c.setReg r.rd value with sp := c.sp + 4 })
  | .mov => .ok (m.withCpu (c.setReg r.rd a))
  | .cmp => .ok (m.withCpu { c with flags := (Alu.sub a b).apply c.flags })
  | .test => .ok (m.withCpu { c with flags := c.flags.updateZN (a &&& b) })
  | .slt => .ok (m.withCpu (c.setTruth r.rd (a.toInt32 < b.toInt32)))
  | .sle => .ok (m.withCpu (c.setTruth r.rd (a.toInt32 ≤ b.toInt32)))
  | .seq => .ok (m.withCpu (c.setTruth r.rd (a = b)))
  | .sne => .ok (m.withCpu (c.setTruth r.rd (a ≠ b)))

/-- Executes an operation on a register and an immediate. -/
def executeImmediate (m : Machine κ) (op : ImmediateOp) (args : ImmediateArgs) : Machine κ :=
  let c := m.cpu
  let imm := args.value.toUInt32
  match op with
  | .addi => m.withCpu (c.setOutcome args.rd (Alu.add (c.reg args.rd) imm))
  | .loadi => m.withCpu (c.setReg args.rd imm)
  | .lui => m.withCpu (c.setReg args.rd (imm <<< 16))

/-- Executes a jump at address `pc`. A call pushes the address after it first. -/
def executeJump (m : Machine κ) (pc : UInt32) (op : JumpOp) (args : JumpArgs) :
    Except Fault (Flow × Machine κ) :=
  match op with
  | .call =>
    match m.pushWord (pc + 4) with
    | .error e => .error ⟨pc, .memory e⟩
    | .ok m => .ok (.jump args.target, m)
  | op => .ok (if op.taken m.cpu.flags then .jump args.target else .next, m)

/-- Executes an operation without operands at address `pc`. -/
def executeBare [Console κ] (m : Machine κ) (pc : UInt32) (op : BareOp) :
    Except Fault (Flow × Machine κ) :=
  match op with
  | .nop => .ok (.next, m)
  | .halt => .ok (.halt, m.withCpu { m.cpu with halted := true })
  | .ret =>
    match m.topWord with
    | .error e => .error ⟨pc, .memory e⟩
    | .ok target => .ok (.jump target, m.withCpu { m.cpu with sp := m.cpu.sp + 4 })
  | .syscall =>
    let m := m.callHost
    .ok (if m.cpu.halted then .halt else .next, m)

/-- Executes an instruction at address `pc`: where execution goes on and the machine after it, or the
fault. The program counter is left to the caller. -/
def execute [Console κ] (m : Machine κ) (pc : UInt32) (i : Instruction) :
    Except Fault (Flow × Machine κ) :=
  match i with
  | .bare op => m.executeBare pc op
  | .register op args => return (.next, ← m.executeRegister pc op args)
  | .immediate op args => .ok (.next, m.executeImmediate op args)
  | .jump op args => m.executeJump pc op args

/-- Fetches, decodes and executes the instruction at an address, and stops short
of what follows a success: the word, the flow and the machine so far. -/
def attempt [Console κ] (m : Machine κ) (pc : UInt32) :
    Except Fault (UInt32 × Flow × Machine κ) := do
  let word ← m.fetch pc
  let i ← decodeAt pc word
  let (flow, m) ← m.execute pc i
  return (word, flow, m)

/-- What a transaction comes to in place: a failure leaves the machine as it was. -/
def settle {α : Type} (m : Machine κ) :
    Except Fault (α × Machine κ) → Except Fault α × Machine κ
  | .ok (a, n) => (.ok a, n)
  | .error f => (.error f, m)

end Machine

/-! ## In place -/

namespace InPlace

variable {κ : Type} {α β : Type}

/-- Work after work: a failure ends it where it stands. -/
theorem on_bind (x : InPlace κ α) (f : α → InPlace κ β) (m : Machine κ) :
    (x >>= f).on m = match x.on m with
      | (.ok a, n) => (f a).on n
      | (.error e, n) => (.error e, n) := by
  show StateT.run (ExceptT.run (x >>= f)) m = _
  simp only [ExceptT.run, ExceptT.bind, bind, StateT.run, StateT.bind, ExceptT.mk, on]
  cases h : x m with
  | mk a n => cases a <;> rfl

theorem on_pure (a : α) (m : Machine κ) : (pure a : InPlace κ α).on m = (.ok a, m) := rfl

theorem on_get (m : Machine κ) : (get : InPlace κ (Machine κ)).on m = (.ok m, m) := rfl

theorem on_lift (x : Except Fault α) (m : Machine κ) :
    (liftM x : InPlace κ α).on m = (x, m) := rfl

theorem on_reg (r : Reg) (m : Machine κ) :
    (reg r : InPlace κ UInt32).on m = (.ok (m.cpu.reg r), m) := rfl

theorem on_ofMemory (pc : UInt32) (answer : Except MemoryError α) (m : Machine κ) :
    (ofMemory pc answer).on m =
      (answer.mapError fun e => ⟨pc, .memory e⟩, m) := by
  cases answer <;> rfl

/-! ### Memory -/

/-- Memory that refuses a change leaves the machine as it was. -/
theorem on_modifyMemory (pc : UInt32) (change : Memory → Except MemoryError Memory)
    (m : Machine κ) :
    (modifyMemory pc change).on m = match change m.memory with
      | .ok memory => (.ok (), { m with memory })
      | .error e => (.error ⟨pc, .memory e⟩, m) := by
  unfold modifyMemory
  rw [on_bind, on_get]
  dsimp only
  rw [on_bind, on_ofMemory]
  cases change m.memory <;> rfl

/-- The stack pointer moves only when the word was stored. -/
theorem on_pushWord (pc value : UInt32) (m : Machine κ) :
    (pushWord pc value).on m = match m.pushWord value with
      | .ok n => (.ok (), n)
      | .error e => (.error ⟨pc, .memory e⟩, m) := by
  unfold pushWord Machine.pushWord
  rw [on_bind, on_get]
  dsimp only
  rw [on_bind, writeWord, on_modifyMemory]
  cases m.memory.writeWord (m.cpu.sp - 4) value .writing <;> rfl

theorem on_topWord (pc : UInt32) (m : Machine κ) :
    (topWord pc).on m = (m.topWord.mapError fun e => ⟨pc, .memory e⟩, m) := by
  unfold topWord
  rw [on_bind, on_get]
  exact on_ofMemory pc _ m

/-! ### Families of operations -/

theorem on_arith (r : RegisterArgs) (op : UInt32 → UInt32 → Alu.Outcome) (m : Machine κ) :
    (arith r op).on m =
      (.ok (), m.withCpu (m.cpu.setOutcome r.rd (op (m.cpu.reg r.rs1) (m.cpu.reg r.rs2)))) :=
  rfl

theorem on_logic (r : RegisterArgs) (op : UInt32 → UInt32 → UInt32) (m : Machine κ) :
    (logic r op).on m =
      (.ok (), m.withCpu (m.cpu.setResult r.rd (op (m.cpu.reg r.rs1) (m.cpu.reg r.rs2)))) :=
  rfl

theorem on_setIf (r : RegisterArgs) (c : UInt32 → UInt32 → Bool) (m : Machine κ) :
    (setIf r c).on m =
      (.ok (), m.withCpu (m.cpu.setTruth r.rd (c (m.cpu.reg r.rs1) (m.cpu.reg r.rs2)))) :=
  rfl

/-- The divisor is looked at before anything is stored. -/
theorem on_divide (pc : UInt32) (r : RegisterArgs) (op : UInt32 → UInt32 → UInt32)
    (m : Machine κ) :
    (divide pc r op).on m =
      if m.cpu.reg r.rs2 = 0 then (.error ⟨pc, .divideByZero⟩, m)
      else (.ok (),
        m.withCpu (m.cpu.setResult r.rd (op (m.cpu.reg r.rs1) (m.cpu.reg r.rs2)))) := by
  unfold divide
  rw [on_bind, on_reg]
  dsimp only
  rw [on_bind, on_reg]
  dsimp only
  split
  · rfl
  · rfl

/-! ### Instructions -/

/-- An operation on registers is atomic. -/
theorem on_executeRegister (pc : UInt32) (op : RegisterOp) (r : RegisterArgs)
    (m : Machine κ) :
    (executeRegister pc op r).on m =
      m.settle ((m.executeRegister pc op r).map fun n => ((), n)) := by
  cases op
  case add | sub | mul => exact on_arith r _ m
  case and | or | xor | not | shl | shr => exact on_logic r _ m
  case slt | sle | seq | sne => exact on_setIf r _ m
  case neg | mov | cmp | test => rfl
  case div | mod =>
    simp only [executeRegister, on_divide, Machine.executeRegister]
    split
    · rfl
    · rfl
  case load =>
    simp only [executeRegister, effectiveAddress, on_bind, on_pure, on_reg, on_get, on_ofMemory,
      Machine.executeRegister]
    cases m.memory.readWord (m.cpu.reg r.rs1 + m.cpu.reg r.rs2) .reading <;> rfl
  case loadb =>
    simp only [executeRegister, effectiveAddress, on_bind, on_pure, on_reg, on_get, on_ofMemory,
      Machine.executeRegister]
    cases m.memory.readByte (m.cpu.reg r.rs1 + m.cpu.reg r.rs2) .reading <;> rfl
  case store =>
    simp only [executeRegister, effectiveAddress, on_bind, on_pure, on_reg, writeWord,
      on_modifyMemory, Machine.executeRegister]
    cases m.memory.writeWord (m.cpu.reg r.rs1 + m.cpu.reg r.rs2) (m.cpu.reg r.rd) .writing <;>
      rfl
  case storeb =>
    simp only [executeRegister, effectiveAddress, on_bind, on_pure, on_reg, writeByte,
      on_modifyMemory, Machine.executeRegister]
    cases m.memory.writeByte (m.cpu.reg r.rs1 + m.cpu.reg r.rs2) (m.cpu.reg r.rd).toUInt8
      .writing <;> rfl
  case push =>
    simp only [executeRegister, on_bind, on_reg, on_pushWord, Machine.executeRegister]
    cases m.pushWord (m.cpu.reg r.rs1) <;> rfl
  case pop =>
    simp only [executeRegister, on_bind, on_topWord, Machine.executeRegister]
    cases m.topWord <;> rfl

theorem on_executeImmediate (op : ImmediateOp) (args : ImmediateArgs) (m : Machine κ) :
    (executeImmediate op args).on m = (.ok (), m.executeImmediate op args) := by
  cases op <;> rfl

theorem on_executeJump (pc : UInt32) (op : JumpOp) (args : JumpArgs) (m : Machine κ) :
    (executeJump pc op args).on m = m.settle (m.executeJump pc op args) := by
  cases op
  case call =>
    simp only [executeJump, on_bind, on_pushWord, Machine.executeJump]
    cases m.pushWord (pc + 4) <;> rfl
  all_goals rfl

variable [Console κ]

theorem on_executeBare (pc : UInt32) (op : BareOp) (m : Machine κ) :
    (executeBare pc op).on m = m.settle (m.executeBare pc op) := by
  cases op
  case ret =>
    simp only [executeBare, on_bind, on_topWord, Machine.executeBare]
    cases m.topWord <;> rfl
  all_goals rfl

/-- **Every instruction is atomic**: executed in place, it comes to what it is as
a transaction. -/
theorem on_execute (pc : UInt32) (i : Instruction) (m : Machine κ) :
    (execute pc i).on m = m.settle (m.execute pc i) := by
  cases i with
  | bare op => exact on_executeBare pc op m
  | register op args =>
      simp only [execute, on_bind, on_executeRegister, Machine.execute]
      cases m.executeRegister pc op args <;> rfl
  | immediate op args =>
      simp only [execute, on_bind, on_executeImmediate, Machine.execute]
      rfl
  | jump op args => exact on_executeJump pc op args m

/-- So is a whole step up to its success, and nothing fails after that. -/
theorem on_executeAt (pc : UInt32) (m : Machine κ) :
    (executeAt pc).on m =
      m.settle ((m.attempt pc).map fun r => r.2.2.retire pc r.1 r.2.1) := by
  unfold executeAt Machine.attempt
  rw [on_bind, on_get]
  dsimp only
  rw [on_bind, on_lift]
  cases m.fetch pc with
  | error e => rfl
  | ok word =>
      show (liftM (Machine.decodeAt pc word) >>= _ : InPlace κ StepOutcome).on m =
        m.settle ((Machine.decodeAt pc word >>= _).map _)
      rw [on_bind, on_lift]
      cases Machine.decodeAt pc word with
      | error e => rfl
      | ok i =>
          show (execute pc i >>= _).on m = m.settle ((m.execute pc i >>= _).map _)
          rw [on_bind, on_execute]
          cases m.execute pc i with
          | error e => rfl
          | ok r => rfl

end InPlace

end SandboxCpu
