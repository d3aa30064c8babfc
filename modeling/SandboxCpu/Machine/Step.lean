import SandboxCpu.Machine.Execute
/-!
# Steps and runs

A step asks the debugger, then fetches, decodes and executes one instruction. It ends in one of four
ways: execution can go on, the guest has stopped, the debugger pauses, or the instruction failed. After
a failure the machine is as the instruction left it.

`Machine.steps` takes at most a number of steps, `Machine.run` goes on until a step does not let it;
the latter has a bound too, and says when it was reached.
-/

namespace SandboxCpu

/-- How a step ended, if the instruction did not fail. -/
inductive StepOutcome
  | ongoing
  | halted
  | paused
  deriving DecidableEq, Repr

/-- The name of an outcome. -/
def StepOutcome.text : StepOutcome → String
  | ongoing => "Continue"
  | halted => "Halted"
  | paused => "Paused"

/-- The phase after an outcome. -/
def StepOutcome.phase : StepOutcome → Phase
  | ongoing => .idle
  | halted => .ended
  | paused => .paused

/-- How a run ended, if no instruction failed. -/
inductive RunOutcome
  | exited (code : Int32)
  | paused (pc : UInt32)
  deriving DecidableEq, Repr

namespace Machine

variable {κ : Type}

/-- Fetches the word at an address, which must be readable and executable. -/
def fetch (m : Machine κ) (pc : UInt32) : Except Fault UInt32 :=
  match m.memory.readWord pc .fetching with
  | .ok word => .ok word
  | .error e => .error ⟨pc, .fetch e⟩

/-- The instruction of a word fetched at an address. -/
def decodeAt (pc word : UInt32) : Except Fault Instruction :=
  match Instruction.decode word with
  | .ok i => .ok i
  | .error _ => .error ⟨pc, .invalidOpcode word⟩

/-- What follows a successful instruction: the program counter moves on, and debugger and tracer take
note. -/
def retire (m : Machine κ) (pc word : UInt32) (flow : Flow) : StepOutcome × Machine κ :=
  let m := { m with
    cpu := { m.cpu with pc := flow.nextPc pc }
    debugger := m.debugger.countInstruction
    tracer := Tracer.trace m.tracer pc word }
  if flow = .halt then (.halted, { m with debugger := m.debugger.record .halted })
  else if m.debugger.isSingleStep then
    (.paused, { m with debugger := m.debugger.record (.singleStep pc) })
  else (.ongoing, m)

end Machine

namespace InPlace

variable {κ : Type} [Console κ]

/-- Fetches, decodes and executes the instruction at an address. -/
def executeAt (pc : UInt32) : InPlace κ StepOutcome := do
  let word ← (← get).fetch pc
  let i ← Machine.decodeAt pc word
  let flow ← execute pc i
  modifyGet fun m => m.retire pc word flow

end InPlace

namespace Machine

variable {κ : Type}

/-- One step. -/
def step [Console κ] (m : Machine κ) : Except Fault StepOutcome × Machine κ :=
  if m.cpu.halted then (.ok .halted, { m with phase := .ended })
  else
    let pc := m.cpu.pc
    match m.debugger.pauseBefore pc with
    | (true, debugger) => (.ok .paused, { m with debugger, phase := .paused })
    | (false, debugger) =>
      let m := { m with debugger, phase := .running }
      match (InPlace.executeAt pc).on m with
      | (.ok outcome, m) => (.ok outcome, { m with phase := outcome.phase })
      | (.error fault, m) => (.error fault, { m with phase := .faulted })

/-- At most `n` steps, as long as execution can go on; how the last of them ended. -/
def steps [Console κ] : Nat → Machine κ → Except Fault StepOutcome × Machine κ
  | 0, m => (.ok .ongoing, m)
  | n + 1, m =>
    match m.step with
    | (.ok .ongoing, m) => steps n m
    | ended => ended

/-- Steps until the guest stops, the debugger pauses or an instruction fails, within a bound on their
number. There is no outcome when the bound is reached first. -/
def run [Console κ] : (bound : Nat) → Machine κ → Option (Except Fault RunOutcome) × Machine κ
  | 0, m => (none, m)
  | bound + 1, m =>
    match m.step with
    | (.ok .ongoing, m) => run bound m
    | (.ok .halted, m) => (some (.ok (.exited m.exitCode)), m)
    | (.ok .paused, m) => (some (.ok (.paused m.cpu.pc)), m)
    | (.error fault, m) => (some (.error fault), m)

end Machine

end SandboxCpu
