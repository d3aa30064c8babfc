/-!
# Configuration

What may be chosen about a machine before it is made. Everything has a default.
-/

namespace SandboxCpu

/-- The choices about a machine. -/
structure Config where
  /-- Where programs are loaded. -/
  loadAddr : UInt32 := 0
  /-- Where execution starts. -/
  entryPc : UInt32 := 0
  /-- How many events the debugger keeps. -/
  eventListSize : Nat := 64
  /-- How many breakpoints there may be. -/
  breakpointCapacity : Nat := 16
  /-- How many instructions the tracer keeps. -/
  traceListSize : Nat := 32
  /-- The most bytes that one call reads from the console. -/
  readLimit : Nat := 256
  deriving DecidableEq, Repr

end SandboxCpu
