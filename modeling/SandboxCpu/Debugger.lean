import SandboxCpu.Ring
import SandboxCpu.Text.Hex
/-!
# The debugger

A state machine that the processor asks before it fetches an instruction. It knows breakpoints, holds
the single-step switch, counts instructions and cycles, and keeps the most recent events.

A breakpoint pauses once and then lets go: the address at which execution paused is remembered as the
*resume marker*, and the next question at that address is answered with no.

## Main statements

* `mem_breakpoints_addBreakpoint_iff`, what an added breakpoint changes in the set of them;
* `pauseBefore_eq_false_of_not_mem`, that only a breakpoint pauses.
-/

namespace SandboxCpu

/-- Something the debugger keeps a note of. -/
inductive Event
  | halted
  /-- Execution paused before the instruction at an address. -/
  | breakpoint (pc : UInt32)
  /-- Execution paused after the instruction at an address. -/
  | singleStep (pc : UInt32)
  | syscall (number : UInt32)
  deriving DecidableEq, Repr

/-- The name of an event, with its argument in parentheses. -/
def Event.text : Event → String
  | halted => "Halted"
  | breakpoint pc => "Breakpoint(" ++ toString pc.toNat ++ ")"
  | singleStep pc => "SingleStep(" ++ toString pc.toNat ++ ")"
  | syscall number => "Syscall(" ++ toString number.toNat ++ ")"

/-- There is no room for another breakpoint. -/
structure BreakpointsFull where
  capacity : Nat
  deriving DecidableEq, Repr

/-- The wording of a breakpoint error. -/
def BreakpointsFull.message (e : BreakpointsFull) : String :=
  "断点数量已达上限 " ++ toString e.capacity

/-- The debugger. -/
structure Debugger where
  /-- Whether it pauses execution and keeps events. -/
  enabled : Bool
  /-- Whether to pause after every instruction. -/
  singleStep : Bool
  /-- Where to pause, in the order in which the addresses were added. -/
  breakpoints : List UInt32
  /-- How many breakpoints there may be. -/
  capacity : Nat
  /-- Where execution last paused, as long as the pause is to be let go. -/
  resume : Option UInt32
  /-- Executed instructions, modulo `2 ^ 64`. -/
  instructions : UInt64
  /-- Elapsed cycles, modulo `2 ^ 64`. -/
  cycles : UInt64
  /-- The most recent events. -/
  events : Ring Event

namespace Debugger

/-- A debugger that is switched off, with room for breakpoints and events. -/
def fresh (capacity eventCapacity : Nat) : Debugger where
  enabled := false
  singleStep := false
  breakpoints := []
  capacity := capacity
  resume := none
  instructions := 0
  cycles := 0
  events := .empty eventCapacity

/-- Forgets everything but how much room there is. -/
def reset (d : Debugger) : Debugger where
  enabled := false
  singleStep := false
  breakpoints := []
  capacity := d.capacity
  resume := none
  instructions := 0
  cycles := 0
  events := d.events.clear

/-- Switches the debugger on or off. Switched off, it forgets where execution paused. -/
def setEnabled (d : Debugger) (enabled : Bool) : Debugger :=
  { d with enabled, resume := if enabled then d.resume else none }

/-- Sets the single-step switch. -/
def setSingleStep (d : Debugger) (singleStep : Bool) : Debugger := { d with singleStep }

/-- Whether execution pauses after every instruction. -/
def isSingleStep (d : Debugger) : Bool := d.enabled && d.singleStep

/-- Adds a breakpoint behind the others. One that is there already is accepted as it is. -/
def addBreakpoint (d : Debugger) (addr : UInt32) : Except BreakpointsFull Debugger :=
  if d.breakpoints.contains addr then .ok d
  else if d.capacity ≤ d.breakpoints.length then .error ⟨d.capacity⟩
  else .ok { d with breakpoints := d.breakpoints ++ [addr] }

/-- Removes a breakpoint, and says whether there was one. -/
def removeBreakpoint (d : Debugger) (addr : UInt32) : Bool × Debugger :=
  if d.breakpoints.contains addr then
    (true, { d with
      breakpoints := d.breakpoints.erase addr
      resume := if d.resume = some addr then none else d.resume })
  else (false, d)

/-- Removes all breakpoints. -/
def clearBreakpoints (d : Debugger) : Debugger := { d with breakpoints := [], resume := none }

/-- Keeps a note of an event, if the debugger is on. -/
def record (d : Debugger) (e : Event) : Debugger :=
  if d.enabled then { d with events := d.events.pushOverwrite e } else d

/-- The events noted so far, oldest first, and the debugger without them. -/
def takeEvents (d : Debugger) : List Event × Debugger :=
  (d.events.toList, { d with events := d.events.clear })

/-- Whether to pause before the instruction at `pc`, and the debugger after the question. -/
def pauseBefore (d : Debugger) (pc : UInt32) : Bool × Debugger :=
  if !d.enabled then (false, d)
  else if d.resume = some pc then (false, { d with resume := none })
  else if d.breakpoints.contains pc then
    (true, { d with resume := some pc }.record (.breakpoint pc))
  else (false, { d with resume := none })

/-- Counts an executed instruction, which takes one cycle. -/
def countInstruction (d : Debugger) : Debugger :=
  { d with instructions := d.instructions + 1, cycles := d.cycles + 1 }

/-- Counts further cycles. -/
def addCycles (d : Debugger) (cycles : UInt64) : Debugger := { d with cycles := d.cycles + cycles }

/-- After a breakpoint is accepted, it and the former ones are there. -/
theorem mem_breakpoints_addBreakpoint_iff {d d' : Debugger} {addr a : UInt32}
    (h : d.addBreakpoint addr = .ok d') :
    a ∈ d'.breakpoints ↔ a ∈ d.breakpoints ∨ a = addr := by
  unfold addBreakpoint at h
  split at h
  · rename_i hc
    simp only [Except.ok.injEq] at h
    subst h
    constructor
    · exact Or.inl
    · rintro (h | rfl)
      · exact h
      · exact List.contains_iff_mem.mp hc
  · split at h
    · simp at h
    · simp only [Except.ok.injEq] at h
      subst h
      simp

/-- Only a breakpoint pauses, and only when the debugger is on. -/
theorem pauseBefore_eq_false_of_not_mem {d : Debugger} {pc : UInt32}
    (h : d.enabled = false ∨ pc ∉ d.breakpoints) : (d.pauseBefore pc).1 = false := by
  unfold pauseBefore
  rcases h with h | h
  · simp [h]
  · simp only [List.contains_iff_mem, h, ↓reduceIte]
    split
    · rfl
    · split <;> rfl

end Debugger

end SandboxCpu
