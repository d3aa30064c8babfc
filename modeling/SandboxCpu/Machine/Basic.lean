import SandboxCpu.Config.Basic
import SandboxCpu.Console
import SandboxCpu.Cpu
import SandboxCpu.Debugger
import SandboxCpu.Fault
import SandboxCpu.Heap
import SandboxCpu.Timer
import SandboxCpu.Tracer
/-!
# The machine

All state of a guest and of the devices around it, over any type `κ` of consoles. A machine is made
from a configuration and a console; a reset brings everything but these two back to the start.
-/

namespace SandboxCpu

/-- What the machine is doing, or how its last step ended. -/
inductive Phase
  | idle
  /-- Within a step. -/
  | running
  | paused
  | ended
  /-- The last instruction failed. -/
  | faulted
  deriving DecidableEq, Repr

/-- The name of a phase. -/
def Phase.text : Phase → String
  | idle => "Idle"
  | running => "Running"
  | paused => "Paused"
  | ended => "End"
  | faulted => "Faulted"

/-- A guest and the devices around it. -/
structure Machine (κ : Type) where
  cpu : Cpu
  memory : Memory
  /-- The heap that the guest allocates from. -/
  heap : Heap
  timer : Timer
  debugger : Debugger
  /-- The most recent instructions. -/
  tracer : Tracer
  phase : Phase
  /-- What the guest said when it stopped. -/
  exitCode : Int32
  /-- Where output goes and input comes from. -/
  console : κ
  /-- The choices with which the machine was made. -/
  config : Config

namespace Machine

variable {κ : Type}

/-- A machine about to execute at the configured entry. -/
def new (config : Config) (console : κ) : Machine κ where
  cpu := .initial config.entryPc
  memory := .initial
  heap := .fresh Memory.heapBase Memory.heapSize
  timer := {}
  debugger := .fresh config.breakpointCapacity config.eventListSize
  tracer := .empty config.traceListSize
  phase := .idle
  exitCode := 0
  console := console
  config := config

/-- The machine brought back to the start. Its console and configuration stay. -/
def reset (m : Machine κ) : Machine κ :=
  { m with
    cpu := .initial m.config.entryPc
    memory := .initial
    heap := m.heap.reset
    timer := {}
    debugger := m.debugger.reset
    tracer := Ring.clear m.tracer
    phase := .idle
    exitCode := 0 }

/-- Attaches another console. -/
def setConsole {κ' : Type} (m : Machine κ) (console : κ') : Machine κ' := { m with console }

/-- Puts a program into memory. -/
def loadProgram (m : Machine κ) (addr : UInt32) (image : List UInt8) :
    Except MemoryError (Machine κ) :=
  return { m with memory := ← m.memory.load addr image }

/-- Reads memory with the permissions of the guest. -/
def readMemory (m : Machine κ) (addr : UInt32) (size : Nat) : Except MemoryError (List UInt8) :=
  m.memory.read addr size .reading

/-- Writes memory with the permissions of the guest. -/
def writeMemory (m : Machine κ) (addr : UInt32) (bytes : List UInt8) :
    Except MemoryError (Machine κ) :=
  return { m with memory := ← m.memory.write addr bytes .writing }

/-- Hands out a block of the heap, as for the guest. -/
def alloc (m : Machine κ) (size : UInt32) : UInt32 × Machine κ :=
  let (addr, heap) := m.heap.alloc size
  (addr, { m with heap })

end Machine

end SandboxCpu
