import SandboxCpu.Machine.Basic
import SandboxCpu.Proofs.Alu.Exact
import SandboxCpu.Proofs.Memory.Permission

/-!
# The table of operations

What each operation does, written down as a table and apart from the code that
does it.  A row gives the fault of an instruction, or its *effect*: the parts of
a machine that get another content, as a function of the machine before it.  What
an effect does not name stays as it is (`Effect.Brings`).

The table reads the instruction word by quotients and remainders, and registers
and bytes as integers.  It knows nothing of shifted bytes, masked fields and sign
bits, of decoding, or of the order in which the parts are changed.  That operands
are read before the destination is written goes without saying here: a row has
only the machine before the instruction to speak of.

That execution follows the table is shown in `Proofs/Isa/Conformance` for
instructions and in `Proofs/Machine/Conformance` for steps, together with the one case
in which it does not.
-/

namespace SandboxCpu.Isa

open Word

/-! ## Effects -/

/-- What an instruction does to the flags. -/
inductive FlagRule
  /-- They stay. -/
  | keep
  /-- The zero and the negative flag speak of a value; the other two stay. -/
  | result (value : UInt32)
  /-- All four speak of an outcome. -/
  | arithmetic (outcome : Alu.Outcome)

/-- The flags after an instruction. -/
def FlagRule.after (f : Flags) : FlagRule → Flags
  | keep => f
  | result value => { f with zero := value = 0, negative := signed value < 0 }
  | arithmetic r =>
    { zero := r.value = 0
      negative := signed r.value < 0
      carry := r.carry
      overflow := r.overflow }

/-- What an instruction changes.  Parts that are not mentioned stay. -/
structure Effect (κ : Type) where
  /-- A register and its new contents. -/
  dest : Option (Reg × UInt32) := none
  flags : FlagRule := .keep
  sp : Option UInt32 := none
  /-- Where execution goes on, if not at the next word. -/
  target : Option UInt32 := none
  halts : Bool := false
  /-- Bytes that are stored, and the address of the first. -/
  store : Option (UInt32 × List UInt8) := none
  heap : Option Heap := none
  exitCode : Option Int32 := none
  console : Option κ := none
  /-- How many ticks pass, each of which is a cycle too. -/
  sleeps : UInt32 := 0

namespace Effect

variable {κ : Type}

/-- An effect that also leaves the console in a state. -/
def leaving (e : Effect κ) (console : κ) : Effect κ := { e with console := some console }

/-- The contents of a register after an effect. -/
def regAfter (e : Effect κ) (c : Cpu) (r : Reg) : UInt32 :=
  match e.dest with
  | none => c.reg r
  | some (rd, value) => if rd = r then value else c.reg r

/-- A byte of memory after an effect. -/
def byteAfter (e : Effect κ) (m : Memory) (a : Nat) : UInt8 :=
  match e.store with
  | none => m.byteAt a
  | some (addr, bytes) =>
    if addr.toNat ≤ a then (bytes[a - addr.toNat]?).getD (m.byteAt a) else m.byteAt a

/-- The second machine is the first after an effect, but for the program counter
and what debugger and tracer keep. -/
structure Brings (e : Effect κ) (m n : Machine κ) : Prop where
  reg : ∀ r, n.cpu.reg r = e.regAfter m.cpu r
  flags : n.cpu.flags = e.flags.after m.cpu.flags
  sp : n.cpu.sp = e.sp.getD m.cpu.sp
  fp : n.cpu.fp = m.cpu.fp
  halted : n.cpu.halted = (m.cpu.halted || e.halts)
  byteAt : ∀ a, n.memory.byteAt a = e.byteAfter m.memory a
  protectionAt : ∀ a, n.memory.protectionAt a = m.memory.protectionAt a
  heap : n.heap = e.heap.getD m.heap
  timer : n.timer.ticks = m.timer.ticks + e.sleeps.toUInt64
  exitCode : n.exitCode = e.exitCode.getD m.exitCode
  console : n.console = e.console.getD m.console
  config : n.config = m.config

end Effect

/-! ## The rows by family -/

section Rows

variable {κ : Type}

/-- A result that the zero and the negative flag speak of. -/
def result (rd : Reg) (value : UInt32) : Effect κ :=
  { dest := some (rd, value), flags := .result value }

/-- The outcome of arithmetic. -/
def arithmetic (rd : Reg) (outcome : Alu.Outcome) : Effect κ :=
  { dest := some (rd, outcome.value), flags := .arithmetic outcome }

/-- A value that the flags do not speak of. -/
def copy (rd : Reg) (value : UInt32) : Effect κ := { dest := some (rd, value) }

/-- One if a statement holds, and zero otherwise. -/
def truth (rd : Reg) (p : Prop) [Decidable p] : Effect κ := copy rd (if p then 1 else 0)

/-- A jump, if its condition holds. -/
def jumpIf (condition : Bool) (target : UInt32) : Effect κ :=
  { target := if condition then some target else none }

/-- What needs a divisor other than zero. -/
def dividing (m : Machine κ) (divisor : UInt32) (e : Effect κ) : Except Fault (Effect κ) :=
  if divisor = 0 then .error ⟨m.cpu.pc, .divideByZero⟩ else .ok e

/-- The number whose digits in base 256 stand in memory, the lowest first. -/
def number (m : Memory) (addr : Nat) : (size : Nat) → Nat
  | 0 => 0
  | size + 1 => (m.byteAt addr).toNat + 256 * number m (addr + 1) size

/-- The lowest digits of a word in base 256, the lowest first. -/
def digits (w : UInt32) (size : Nat) : List UInt8 :=
  (List.range size).map fun i => UInt8.ofNat (w.toNat / 256 ^ i)

/-- What uses a number in memory that may be read. -/
def reading (m : Machine κ) (addr : UInt32) (size : Nat) (use : UInt32 → Effect κ) :
    Except Fault (Effect κ) :=
  if m.memory.Granted .reading addr size then
    .ok (use (UInt32.ofNat (number m.memory addr.toNat size)))
  else .error ⟨m.cpu.pc, .memory (.accessViolation addr size .reading)⟩

/-- What stores a word or its lowest byte where memory may be written. -/
def storing (m : Machine κ) (addr value : UInt32) (size : Nat) (e : Effect κ) :
    Except Fault (Effect κ) :=
  if m.memory.Granted .writing addr size then .ok { e with store := some (addr, digits value size) }
  else .error ⟨m.cpu.pc, .memory (.accessViolation addr size .writing)⟩

/-! ## The rows of the call instruction -/

theorem register_lt (n : Nat) : n % 16 < 16 := Nat.mod_lt n (by decide)

/-- The register of a number, of which the lowest four bits count. -/
def register (n : Nat) : Reg := ⟨n % 16, register_lt n⟩

/-- An answer to the guest, which finds it in register 0. -/
def answer (value : UInt32) : Effect κ := copy (register 0) value

/-- The answer when a call fails. -/
def failure : Effect κ := answer (UInt32.ofInt (-1))

/-- Printing a range of memory, which must be readable as a whole. -/
def print [Console κ] (m : Machine κ) (addr size : UInt32) : Effect κ :=
  if m.memory.Granted .reading addr size.toNat then
    match Console.write m.console
        ((List.range' addr.toNat size.toNat).map fun a => m.memory.byteAt a) with
    | (.ok (), console) => (answer size).leaving console
    | (.error _, console) => failure.leaving console
  else failure

/-- Reading a line into a range of memory, which must be writable as a whole.  No
more is taken of the line than the guest has room for and the configuration allows. -/
def readLine [Console κ] (m : Machine κ) (addr size : UInt32) : Effect κ :=
  let bound := min size.toNat m.config.readLimit
  if m.memory.Granted .writing addr size.toNat then
    match Console.readLine m.console bound with
    | (.ok line, console) =>
      Effect.leaving { answer (UInt32.ofNat (line.take bound).length) with
        store := some (addr, line.take bound) } console
    | (.error _, console) => failure.leaving console
  else failure

/-- Handing out the next block of the heap, which takes whole words of four bytes.
The last block may be cut short by the end of the region. -/
def allocate (m : Machine κ) (size : UInt32) : Effect κ :=
  let used := m.heap.used.toNat
  let limit := m.heap.size.toNat
  let words := (size.toNat + 3) / 4
  if used + size.toNat ≤ limit then
    { answer (plus m.heap.base used) with
      heap := some { m.heap with used := UInt32.ofNat (min (used + words * 4) limit) } }
  else answer 0

/-- A call to the host, by its number and its arguments. -/
def service [Console κ] (m : Machine κ) (number r1 r2 : UInt32) : Effect κ :=
  if number = 1 then
    { answer 0 with exitCode := some (Int32.ofInt (signed r1)), halts := true }
  else if number = 2 then print m r1 r2
  else if number = 3 then readLine m r1 r2
  else if number = 4 then answer (UInt32.ofNat m.timer.ticks.toNat)
  else if number = 5 then { answer 0 with sleeps := r1 }
  else if number = 6 then allocate m r1
  else if number = 7 then answer 0
  else failure

/-! ## The table -/

/-- The register that a word names in the four bits from `bit` on. -/
def field (w : UInt32) (bit : Nat) : Reg := register (w.toNat / 2 ^ bit)

/-- The signed number in the lowest bits of a word. -/
def immediate (w : UInt32) (bits : Nat) : Int := (w.toNat : Int).bmod (2 ^ bits)

/-- What the instruction of a word does to a machine. -/
def row [Console κ] (m : Machine κ) (w : UInt32) (op : Opcode) : Except Fault (Effect κ) :=
  let pc := m.cpu.pc
  let sp := m.cpu.sp
  let f := m.cpu.flags
  let rd := field w 20
  let d := m.cpu.reg rd
  let a := m.cpu.reg (field w 16)
  let b := m.cpu.reg (field w 12)
  let imm := immediate w 16
  let target := UInt32.ofInt (immediate w 24)
  match op with
  | .bare .nop => .ok {}
  | .bare .halt => .ok { halts := true }
  | .register .add => .ok (arithmetic rd (Alu.exact (· + ·) a b))
  | .register .sub => .ok (arithmetic rd (Alu.exact (· - ·) a b))
  | .register .mul => .ok (arithmetic rd (Alu.exact (· * ·) a b))
  | .register .div => dividing m b (result rd (UInt32.ofNat (a.toNat / b.toNat)))
  | .register .mod => dividing m b (result rd (UInt32.ofNat (a.toNat % b.toNat)))
  | .register .neg => .ok (arithmetic rd (Alu.exact (· - ·) 0 a))
  | .immediate .addi => .ok (arithmetic rd (Alu.exact (· + ·) d (UInt32.ofInt imm)))
  | .register .and => .ok (result rd (a &&& b))
  | .register .or => .ok (result rd (a ||| b))
  | .register .xor => .ok (result rd (a ^^^ b))
  | .register .not => .ok (result rd (~~~a))
  | .register .shl => .ok (result rd (UInt32.ofNat (a.toNat * 2 ^ (b.toNat % 32))))
  | .register .shr => .ok (result rd (UInt32.ofNat (a.toNat / 2 ^ (b.toNat % 32))))
  | .register .load => reading m (plus a (unsigned b)) 4 (copy rd)
  | .register .store => storing m (plus a (unsigned b)) d 4 {}
  | .register .loadb => reading m (plus a (unsigned b)) 1 (copy rd)
  | .register .storeb => storing m (plus a (unsigned b)) d 1 {}
  | .immediate .loadi => .ok (copy rd (UInt32.ofInt imm))
  | .immediate .lui => .ok (copy rd (UInt32.ofInt (imm * 2 ^ 16)))
  | .register .push => storing m (plus sp (-4)) a 4 { sp := some (plus sp (-4)) }
  | .register .pop => reading m sp 4 fun v => { copy rd v with sp := some (plus sp 4) }
  | .register .mov => .ok (copy rd a)
  | .register .cmp => .ok { flags := .arithmetic (Alu.exact (· - ·) a b) }
  | .register .test => .ok { flags := .result (a &&& b) }
  | .register .slt => .ok (truth rd (signed a < signed b))
  | .register .sle => .ok (truth rd (signed a ≤ signed b))
  | .register .seq => .ok (truth rd (a = b))
  | .register .sne => .ok (truth rd (a ≠ b))
  | .jump .jmp => .ok (jumpIf true target)
  | .jump .jz => .ok (jumpIf f.zero target)
  | .jump .jnz => .ok (jumpIf (!f.zero) target)
  | .jump .jc => .ok (jumpIf f.carry target)
  | .jump .jnc => .ok (jumpIf (!f.carry) target)
  | .jump .call =>
    storing m (plus sp (-4)) (plus pc 4) 4 { sp := some (plus sp (-4)), target := some target }
  | .bare .ret => reading m sp 4 fun v => { target := some v, sp := some (plus sp 4) }
  | .bare .syscall =>
    .ok (service m (m.cpu.reg (register 0)) (m.cpu.reg (register 1)) (m.cpu.reg (register 2)))

end Rows

end SandboxCpu.Isa
