import SandboxCpu.Isa.Listing
import SandboxCpu.Ring
/-!
# The trace of recent instructions

The most recently executed instructions with the addresses at which they were fetched, as many as the
tracer has room for.
-/

namespace SandboxCpu

/-- An executed instruction. -/
structure TraceEntry where
  /-- Where it was fetched. -/
  pc : UInt32
  /-- The word that was fetched. -/
  word : UInt32
  deriving DecidableEq, Repr

/-- The most recent instructions, oldest first. -/
abbrev Tracer := Ring TraceEntry

namespace Tracer

/-- Adds an instruction; a full trace lets go of its oldest. -/
def trace (t : Tracer) (pc word : UInt32) : Tracer := t.pushOverwrite ⟨pc, word⟩

/-- The listing lines of the instructions, oldest first, each ended by a line break. -/
def log (t : Tracer) : String :=
  String.join (t.toList.map fun e => Listing.line e.word e.pc ++ "\n")

end Tracer

end SandboxCpu
