import SandboxCpu.Machine.Basic
/-!
# Dumps

The machine as text for a person: memory in lines of sixteen bytes, and the whole state with a window
of nine words around the program counter.
-/

namespace SandboxCpu

namespace Machine

variable {κ : Type}

/-- Line `i` of a dump of `size` bytes from `addr`: up to sixteen bytes after the address of the
first. -/
def dumpLine (m : Memory) (addr : UInt32) (size i : Nat) : String :=
  Text.address (addr + UInt32.ofNat (16 * i)) ++ ": " ++
    Text.bytesHex (m.bytesAt (addr.toNat + 16 * i) (min 16 (size - 16 * i))) ++ "\n"

/-- A dump of a range of memory, which must be readable. -/
def hexdump (m : Machine κ) (addr : UInt32) (size : Nat) : Except MemoryError String :=
  if m.memory.allows addr size .reading then
    .ok (String.join ((List.range ((size + 15) / 16)).map (dumpLine m.memory addr size)))
  else .error (.accessViolation addr size .reading)

/-- Where the window around the program counter starts: four words before it, or at the bottom of
memory. -/
def windowStart (pc : UInt32) : UInt32 := if 16 ≤ pc then pc - 16 else 0

/-- A line of the window: the word at an address and its text, with a mark at the program counter. -/
def windowLine (m : Machine κ) (addr : UInt32) : String :=
  let mark := if addr = m.cpu.pc then " <-- PC" else ""
  match m.memory.readWord addr .reading with
  | .ok word =>
    "  " ++ Text.address addr ++ ": " ++ Text.hex 8 word.toNat ++ "    " ++
      Listing.disassemble word ++ mark
  | .error _ => "  " ++ Text.address addr ++ ": <no access>" ++ mark

/-- The nine lines around the program counter. -/
def window (m : Machine κ) : List String :=
  (List.range 9).map fun i => m.windowLine (windowStart m.cpu.pc + UInt32.ofNat (4 * i))

/-- The whole state. -/
def dump (m : Machine κ) : String :=
  m.cpu.dump ++ "\n" ++
  "Exec: " ++ m.phase.text ++
  "  Instructions: " ++ toString m.debugger.instructions.toNat ++
  "  Cycles: " ++ toString m.debugger.cycles.toNat ++
  "  Ticks: " ++ toString m.timer.ticks.toNat ++ "\n\n" ++
  "Memory around PC:\n" ++
  String.join (m.window.map (· ++ "\n"))

end Machine

end SandboxCpu
