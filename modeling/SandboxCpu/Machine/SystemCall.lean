import SandboxCpu.Machine.Basic
/-!
# System calls

The guest asks its host for a service by number in register 0, with arguments in registers 1 to 3, and
finds the result in register 0. A call that fails leaves the failure value there and never faults.

| number | service | result |
|---|---|---|
| 1 | stop with an exit code | 0 |
| 2 | print bytes of memory | their number |
| 3 | read a line into memory | its length |
| 4 | the timer | the low half of the ticks |
| 5 | let ticks pass | 0 |
| 6 | allocate from the heap | the address, or 0 |
| 7 | free | 0 |

Numbers 8 to 11 are set aside; all others are unknown.
-/

namespace SandboxCpu

/-- A call as the guest makes it. -/
structure SystemCall where
  number : UInt32
  arg0 : UInt32
  arg1 : UInt32
  arg2 : UInt32
  deriving DecidableEq, Repr

/-- Why a call fails. -/
inductive SystemCallError
  /-- The number is set aside for a service that does not exist yet. -/
  | unimplemented (number : UInt32)
  /-- The number stands for nothing. -/
  | unknown (number : UInt32)
  | memory (source : MemoryError)
  | console (source : ConsoleError)
  deriving DecidableEq, Repr

/-- The wording of a failed call. -/
def SystemCallError.message : SystemCallError → String
  | unimplemented number => "未实现的系统调用: " ++ toString number.toNat
  | unknown number => "未知的系统调用: " ++ toString number.toNat
  | memory source => "内存访问错误: " ++ source.message
  | console source => "主机输入输出错误: " ++ source.message

/-- What register 0 holds after a failed call. -/
def SystemCall.failure : UInt32 := 0xFFFFFFFF

namespace Machine

variable {κ : Type}

/-- The call in the machine's registers. -/
def systemCall (m : Machine κ) : SystemCall where
  number := m.cpu.reg (Reg.of 0)
  arg0 := m.cpu.reg (Reg.of 1)
  arg1 := m.cpu.reg (Reg.of 2)
  arg2 := m.cpu.reg (Reg.of 3)

/-- Stops the guest. -/
def exitCall (m : Machine κ) (code : UInt32) : Machine κ :=
  { m with exitCode := code.toInt32, cpu := { m.cpu with halted := true } }

/-- Prints a range of memory, which must be readable as a whole. -/
def printCall [Console κ] (m : Machine κ) (addr size : UInt32) :
    Except SystemCallError UInt32 × Machine κ :=
  match m.memory.read addr size.toNat .reading with
  | .error e => (.error (.memory e), m)
  | .ok bytes =>
    match Console.write m.console bytes with
    | (.error e, console) => (.error (.console e), { m with console })
    | (.ok (), console) => (.ok size, { m with console })

/-- Reads a line into a range of memory. The whole range must be writable before the console is asked;
what the console returns is then stored as it is. -/
def readCall [Console κ] (m : Machine κ) (addr size : UInt32) :
    Except SystemCallError UInt32 × Machine κ :=
  if m.memory.allows addr size.toNat .writing then
    match Console.readLine m.console (min size.toNat m.config.readLimit) with
    | (.error e, console) => (.error (.console e), { m with console })
    | (.ok line, console) =>
      match m.memory.write addr line .writing with
      | .error e => (.error (.memory e), { m with console })
      | .ok memory => (.ok (UInt32.ofNat line.length), { m with console, memory })
  else (.error (.memory (.accessViolation addr size.toNat .writing)), m)

/-- Lets ticks pass, which also count as cycles. -/
def sleepCall (m : Machine κ) (ticks : UInt32) : Machine κ :=
  { m with
    timer := m.timer.advance ticks.toUInt64
    debugger := m.debugger.addCycles ticks.toUInt64 }

/-- Serves a call: its result or why it failed, and the machine after it, register 0 apart. -/
def serve [Console κ] (m : Machine κ) (call : SystemCall) :
    Except SystemCallError UInt32 × Machine κ :=
  if call.number = 1 then (.ok 0, m.exitCall call.arg0)
  else if call.number = 2 then m.printCall call.arg0 call.arg1
  else if call.number = 3 then m.readCall call.arg0 call.arg1
  else if call.number = 4 then (.ok m.timer.ticks.toUInt32, m)
  else if call.number = 5 then (.ok 0, m.sleepCall call.arg0)
  else if call.number = 6 then
    let (addr, m) := m.alloc call.arg0
    (.ok addr, m)
  else if call.number = 7 then (.ok 0, m)
  else if 8 ≤ call.number ∧ call.number ≤ 11 then (.error (.unimplemented call.number), m)
  else (.error (.unknown call.number), m)

/-- The call instruction: the debugger notes the call, the host serves it, and register 0 gets the
result. -/
def callHost [Console κ] (m : Machine κ) : Machine κ :=
  let call := m.systemCall
  let (result, m) := { m with debugger := m.debugger.record (.syscall call.number) }.serve call
  let value := match result with
    | .ok value => value
    | .error _ => SystemCall.failure
  { m with cpu := m.cpu.setReg (Reg.of 0) value }

end Machine

end SandboxCpu
