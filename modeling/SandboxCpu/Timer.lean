/-!
# The timer

A tick counter that stands still until the host or the guest advances it. It knows nothing of real
time, so runs can be repeated.
-/

namespace SandboxCpu

/-- A tick counter, modulo `2 ^ 64`. -/
structure Timer where
  /-- The ticks since the last reset. -/
  ticks : UInt64 := 0
  deriving DecidableEq, Repr

/-- Lets ticks pass. -/
def Timer.advance (t : Timer) (ticks : UInt64) : Timer := ⟨t.ticks + ticks⟩

end SandboxCpu
