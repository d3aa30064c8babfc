import SandboxCpu.Machine.Step
/-!
# Operations of the host

Everything that a host can do to a machine, as data: a history of a machine is a list of operations.
An operation that is refused changes nothing.
-/

namespace SandboxCpu

/-- Something that a host does to a machine. -/
inductive Operation (κ : Type)
  | load (addr : UInt32) (image : List UInt8)
  | step
  | steps (n : Nat)
  | run (bound : Nat)
  | reset
  | setReg (reg : Nat) (value : UInt32)
  | setPc (value : UInt32)
  | setSp (value : UInt32)
  | setFp (value : UInt32)
  | write (addr : UInt32) (bytes : List UInt8)
  | setProtection (page : Nat) (protection : Protection)
  | alloc (size : UInt32)
  | free (addr : UInt32)
  | advanceTimer (ticks : UInt64)
  | setDebugger (enabled : Bool)
  | setSingleStep (on : Bool)
  | addBreakpoint (addr : UInt32)
  | removeBreakpoint (addr : UInt32)
  | clearBreakpoints
  | takeEvents
  | setConsole (console : κ)

/-- What a host gets back. -/
inductive Answer
  | done
  | memoryError (e : MemoryError)
  | registerError (e : RegisterError)
  | breakpointsFull (e : BreakpointsFull)
  | stepped (r : Except Fault StepOutcome)
  | ran (r : Option (Except Fault RunOutcome))
  | address (a : UInt32)
  | truth (b : Bool)
  | events (es : List Event)

namespace Machine

variable {κ : Type}

/-- A change that memory may refuse. -/
private def unlessMemoryError (m : Machine κ) (r : Except MemoryError (Machine κ)) :
    Answer × Machine κ :=
  match r with
  | .ok m' => (.done, m')
  | .error e => (.memoryError e, m)

/-- Does an operation: its answer and the machine after it. -/
def perform [Console κ] (m : Machine κ) : Operation κ → Answer × Machine κ
  | .load addr image => m.unlessMemoryError (m.loadProgram addr image)
  | .step =>
    let (r, m) := m.step
    (.stepped r, m)
  | .steps n =>
    let (r, m) := steps n m
    (.stepped r, m)
  | .run bound =>
    let (r, m) := run bound m
    (.ran r, m)
  | .reset => (.done, m.reset)
  | .setReg reg value =>
    match m.cpu.setReg? reg value with
    | .ok cpu => (.done, m.withCpu cpu)
    | .error e => (.registerError e, m)
  | .setPc value => (.done, m.withCpu { m.cpu with pc := value })
  | .setSp value => (.done, m.withCpu { m.cpu with sp := value })
  | .setFp value => (.done, m.withCpu { m.cpu with fp := value })
  | .write addr bytes => m.unlessMemoryError (m.writeMemory addr bytes)
  | .setProtection page p =>
    m.unlessMemoryError (return { m with memory := ← m.memory.setProtection page p })
  | .alloc size =>
    let (addr, m) := m.alloc size
    (.address addr, m)
  | .free addr =>
    let (accepted, heap) := m.heap.free addr
    (.truth accepted, { m with heap })
  | .advanceTimer ticks => (.done, { m with timer := m.timer.advance ticks })
  | .setDebugger enabled => (.done, { m with debugger := m.debugger.setEnabled enabled })
  | .setSingleStep on => (.done, { m with debugger := m.debugger.setSingleStep on })
  | .addBreakpoint addr =>
    match m.debugger.addBreakpoint addr with
    | .ok debugger => (.done, { m with debugger })
    | .error e => (.breakpointsFull e, m)
  | .removeBreakpoint addr =>
    let (found, debugger) := m.debugger.removeBreakpoint addr
    (.truth found, { m with debugger })
  | .clearBreakpoints => (.done, { m with debugger := m.debugger.clearBreakpoints })
  | .takeEvents =>
    let (events, debugger) := m.debugger.takeEvents
    (.events events, { m with debugger })
  | .setConsole console => (.done, m.setConsole console)

/-- The machine after a history. -/
def after [Console κ] (m : Machine κ) (history : List (Operation κ)) : Machine κ :=
  history.foldl (fun m op => (m.perform op).2) m

end Machine

end SandboxCpu
