import SandboxCpu.Proofs.Debugger.Breakpoints
import SandboxCpu.Proofs.Machine.HostCall
import SandboxCpu.Proofs.Machine.Phase
import SandboxCpu.Proofs.Machine.Trace

/-!
# What a machine tells its debugger

A machine does to its debugger what any user of a debugger could do: it asks
whether to pause, counts and notes.  Here it is written down what these operations
are for a call of `step` (`stepWork`), as it has been for the other operations of a
host (`Operation.debuggerWork`).  The debugger after any history of the machine is then
the debugger after a history of its own (`debugger_after`).

Which operations a call of `step` does depends on the instruction that it executes
(`instruction`), and they come from three places.  The question comes before the
instruction, even if the instruction then fails; the call instruction notes its
number and counts slept cycles while it is executed; and what follows a success
counts the instruction and notes why execution does not go on.

The timer is told of slept ticks as well, and of nothing else by a guest
(`ticks_step`).

## Main results

* `debugger_step`, `ticks_step`: one call of `step`, for debugger and timer.
* `debugger_after`: the debugger after a history of the machine.
* `sound_debugger`: so its breakpoints are a bounded set.
-/

namespace SandboxCpu

/-- Whether an instruction stops the guest, when the number in register 0 is given. -/
def Instruction.stops (number : UInt32) : Instruction → Bool
  | .bare .halt => true
  | .bare .syscall => number == 1
  | _ => false

namespace Machine

variable {κ : Type} [Console κ] {m n : Machine κ}

/-! ## The instruction of a call of `step` -/

/-- The instruction that the next call of `step` executes, if it executes one. -/
def instruction (m : Machine κ) : Option Instruction :=
  m.executing.bind fun e => (Instruction.decode e.word).toOption

theorem instruction_of_idle (h : m.executing = none) : m.instruction = none := by
  rw [instruction, h]
  rfl

theorem instruction_of_done {word : UInt32} {flow : Flow} (hhalted : m.cpu.halted = false)
    (hpauses : m.pauses = false) (h : m.released.attempt m.cpu.pc = .ok (word, flow, n)) :
    ∃ i, m.instruction = some i ∧ m.released.execute m.cpu.pc i = .ok (flow, n) := by
  obtain ⟨-, i, hdecode, hexecute⟩ := of_attempt h
  refine ⟨i, ?_, hexecute⟩
  rw [instruction, executing_of_done hhalted hpauses h]
  show (Instruction.decode word).toOption = some i
  rw [decode_of_decodeAt hdecode]
  rfl

/-- No instruction is executed exactly when the guest has stopped, a breakpoint holds
it, or the attempt fails. -/
theorem instruction_eq_none_iff :
    m.instruction = none ↔
      m.cpu.halted = true ∨ m.pauses = true ∨ ∃ f, m.step.1 = .error f := by
  rw [← executing_eq_none_iff]
  refine ⟨fun h => ?_, instruction_of_idle⟩
  cases m.situation with
  | stopped hhalted => exact executing_of_stopped hhalted
  | held hpauses => exact executing_of_held hpauses
  | failed hhalted hpauses hattempt => exact executing_of_failed hattempt
  | done hhalted hpauses hattempt =>
      obtain ⟨i, hi, -⟩ := instruction_of_done hhalted hpauses hattempt
      rw [h] at hi
      cases hi

/-- An executed instruction is that of the word at the program counter. -/
theorem fetch_of_instruction {i : Instruction} (h : m.instruction = some i) :
    ∃ word, m.memory.readWord m.cpu.pc .fetching = .ok word ∧
      Instruction.decode word = .ok i := by
  unfold instruction at h
  cases he : m.executing with
  | none =>
      rw [he] at h
      cases h
  | some e =>
      rw [he] at h
      change (Instruction.decode e.word).toOption = some i at h
      refine ⟨e.word, readWord_of_fetch (fetch_of_executing he).2, ?_⟩
      cases hdecode : Instruction.decode e.word with
      | error f =>
          rw [hdecode] at h
          cases h
      | ok j =>
          rw [hdecode] at h
          cases h
          rfl

/-- A call of `step` that executes an instruction leaves processor and memory as the
instruction does, with the program counter moved on. -/
theorem step_of_instruction {i : Instruction} (h : m.instruction = some i) :
    ∃ flow n, m.released.execute m.cpu.pc i = .ok (flow, n) ∧
      m.step.2.cpu = { n.cpu with pc := flow.nextPc m.cpu.pc } ∧ m.step.2.memory = n.memory := by
  cases m.situation with
  | stopped hhalted =>
      rw [instruction_of_idle (executing_of_stopped hhalted)] at h
      cases h
  | held hpauses =>
      rw [instruction_of_idle (executing_of_held hpauses)] at h
      cases h
  | failed hhalted hpauses hattempt =>
      rw [instruction_of_idle (executing_of_failed hattempt)] at h
      cases h
  | @done word flow n hhalted hpauses hattempt =>
      obtain ⟨j, hj, hexecute⟩ := instruction_of_done hhalted hpauses hattempt
      cases hj.symm.trans h
      have hstep := architecture_step hhalted hpauses hattempt
      exact ⟨flow, n, hexecute, congrArg Architecture.cpu hstep, congrArg Architecture.memory hstep⟩

/-- One that executes none leaves both as they are. -/
theorem step_of_no_instruction (h : m.instruction = none) :
    m.step.2.cpu = m.cpu ∧ m.step.2.memory = m.memory := by
  cases m.situation with
  | stopped hhalted =>
      rw [step_of_halted hhalted]
      exact ⟨rfl, rfl⟩
  | held hpauses =>
      rw [step_of_pauses hpauses]
      exact ⟨rfl, rfl⟩
  | failed hhalted hpauses hattempt =>
      rw [step_of_fault hhalted hpauses hattempt]
      exact ⟨rfl, rfl⟩
  | done hhalted hpauses hattempt =>
      obtain ⟨i, hi, -⟩ := instruction_of_done hhalted hpauses hattempt
      cases hi.symm.trans h

/-- The host stops the guest for one number only. -/
theorem halted_callHost (hhalted : m.cpu.halted = false) :
    m.callHost.cpu.halted = true ↔ m.systemCall.number = 1 := by
  have hbrings := (Isa.callHost_conforms hhalted).halted
  change m.callHost.cpu.halted = (m.cpu.halted || _) at hbrings
  rw [hbrings, hhalted, Bool.false_or]
  exact (Isa.Effect.OfCall.provided m m.systemCall).halts

/-- Execution goes nowhere just after the instructions that stop the guest. -/
theorem flow_eq_halt_iff {pc : UInt32} {i : Instruction} {flow : Flow}
    (hhalted : m.cpu.halted = false) (h : m.execute pc i = .ok (flow, n)) :
    flow = .halt ↔ i.stops m.systemCall.number = true := by
  cases i with
  | bare op =>
      cases op with
      | nop =>
          cases h
          simp only [Instruction.stops, reduceCtorEq, Bool.false_eq_true]
      | halt =>
          cases h
          simp only [Instruction.stops]
      | ret =>
          simp only [execute, executeBare] at h
          split at h
          · cases h
          · cases h
            simp only [Instruction.stops, reduceCtorEq, Bool.false_eq_true]
      | syscall =>
          cases h
          rw [Instruction.stops, beq_iff_eq, ← halted_callHost hhalted]
          split <;> simp only [*, reduceCtorEq, Bool.false_eq_true]
  | register op args =>
      simp only [execute] at h
      cases hop : m.executeRegister pc op args with
      | error e => rw [hop] at h; cases h
      | ok n' =>
          rw [hop] at h
          cases h
          simp only [Instruction.stops, reduceCtorEq, Bool.false_eq_true]
  | immediate op args =>
      cases h
      simp only [Instruction.stops, reduceCtorEq, Bool.false_eq_true]
  | jump op args =>
      simp only [Instruction.stops, Bool.false_eq_true, iff_false]
      cases op
      case call =>
        simp only [execute, executeJump] at h
        split at h
        · cases h
        · cases h
          simp only [reduceCtorEq, not_false_eq_true]
      all_goals
        simp only [execute, executeJump] at h
        cases h
        split <;> simp only [reduceCtorEq, not_false_eq_true]

/-! ## What a call of `step` tells the debugger -/

/-- What an instruction tells the debugger while it is executed. -/
def callWork (m : Machine κ) (i : Instruction) : List Debugger.Operation :=
  if i = .bare .syscall then
    .record (.syscall m.systemCall.number) ::
      if m.systemCall.number = 5 then [.addCycles m.systemCall.arg0.toUInt64] else []
  else []

/-- What the debugger is told after an instruction. -/
def retireWork (m : Machine κ) (i : Instruction) : List Debugger.Operation :=
  .countInstruction ::
    if i.stops m.systemCall.number then [.record .halted]
    else if m.debugger.isSingleStep then [.record (.singleStep m.cpu.pc)]
    else []

/-- What a call of `step` tells the debugger. -/
def stepWork (m : Machine κ) : List Debugger.Operation :=
  if m.cpu.halted then []
  else .pauseBefore m.cpu.pc ::
    match m.instruction with
    | none => []
    | some i => m.callWork i ++ m.retireWork i

theorem debugger_execute {pc : UInt32} {i : Instruction} {flow : Flow}
    (h : m.execute pc i = .ok (flow, n)) : n.debugger = m.debugger.after (m.callWork i) := by
  by_cases hi : i = .bare .syscall
  · rw [callWork, if_pos hi]
    subst hi
    cases h
    show (serve _ m.systemCall).2.debugger = _
    rw [debugger_serve]
    split <;> rfl
  · rw [callWork, if_neg hi, (Local.of_execute h hi).rest]
    rfl

omit [Console κ] in
theorem debugger_retire (m : Machine κ) (pc word : UInt32) (flow : Flow) :
    (m.retire pc word flow).2.debugger =
      m.debugger.after (.countInstruction ::
        if flow = .halt then [.record .halted]
        else if m.debugger.isSingleStep then [.record (.singleStep pc)]
        else []) := by
  unfold retire
  split
  · rfl
  · have hsingle : m.debugger.countInstruction.isSingleStep = m.debugger.isSingleStep := rfl
    simp only [hsingle]
    split <;> rfl

omit [Console κ] in
/-- The question before an instruction, asked of a machine. -/
theorem pauseBefore_of_running (hhalted : m.cpu.halted = false) :
    (m.debugger.pauseBefore m.cpu.pc).2 =
      if m.pauses then m.held.debugger else m.released.debugger := by
  rw [Debugger.pauseBefore_eq, pauses, hhalted, Bool.not_false, Bool.true_and]
  split <;> rfl

/-- Nothing else happens to the debugger in a call of `step`. -/
theorem debugger_step (m : Machine κ) : m.step.2.debugger = m.debugger.after m.stepWork := by
  unfold stepWork
  cases m.situation with
  | stopped hhalted =>
      rw [step_of_halted hhalted, if_pos hhalted]
      rfl
  | held hpauses =>
      have hhalted := (pauses_iff.mp hpauses).1
      rw [step_of_pauses hpauses, hhalted, instruction_of_idle (executing_of_held hpauses)]
      show _ = (m.debugger.pauseBefore m.cpu.pc).2
      rw [pauseBefore_of_running hhalted, hpauses]
      rfl
  | failed hhalted hpauses hattempt =>
      rw [step_of_fault hhalted hpauses hattempt, hhalted,
        instruction_of_idle (executing_of_failed hattempt)]
      show _ = (m.debugger.pauseBefore m.cpu.pc).2
      rw [pauseBefore_of_running hhalted, hpauses]
      rfl
  | @done word flow n hhalted hpauses hattempt =>
      obtain ⟨i, hi, hexecute⟩ := instruction_of_done hhalted hpauses hattempt
      have hrunning : m.released.cpu.halted = false := hhalted
      rw [step_of_success hhalted hpauses hattempt, hhalted, hi]
      show (n.retire m.cpu.pc word flow).2.debugger =
        (m.debugger.pauseBefore m.cpu.pc).2.after (m.callWork i ++ m.retireWork i)
      rw [pauseBefore_of_running hhalted, hpauses, Debugger.after_append, debugger_retire,
        isSingleStep_attempt hattempt, debugger_execute hexecute]
      simp only [flow_eq_halt_iff hrunning hexecute]
      rfl

/-! ## What a call of `step` tells the timer -/

/-- How many ticks the guest sleeps in the next call of `step`. -/
def slept (m : Machine κ) : UInt32 :=
  if m.instruction = some (.bare .syscall) ∧ m.systemCall.number = 5 then m.systemCall.arg0 else 0

/-- No instruction but the call to sleep advances the timer. -/
theorem ticks_execute {pc : UInt32} {i : Instruction} {flow : Flow}
    (h : m.execute pc i = .ok (flow, n)) :
    n.timer.ticks = m.timer.ticks +
      (if i = .bare .syscall ∧ m.systemCall.number = 5 then m.systemCall.arg0
        else 0).toUInt64 := by
  by_cases hi : i = .bare .syscall
  · subst hi
    cases h
    show (serve _ m.systemCall).2.timer.ticks = _
    rw [timer_serve]
    by_cases hnumber : m.systemCall.number = 5
    · rw [if_pos hnumber, if_pos ⟨rfl, hnumber⟩]
      rfl
    · rw [if_neg hnumber, if_neg fun hboth => hnumber hboth.2]
      exact (UInt64.add_zero _).symm
  · rw [if_neg fun hboth => hi hboth.1, (Local.of_execute h hi).rest]
    exact (UInt64.add_zero _).symm

omit [Console κ] in
theorem timer_retire (m : Machine κ) (pc word : UInt32) (flow : Flow) :
    (m.retire pc word flow).2.timer = m.timer := by
  unfold retire
  dsimp only
  split
  · rfl
  · split <;> rfl

theorem slept_of_idle (h : m.executing = none) : m.slept = 0 := by
  rw [slept, instruction_of_idle h]
  exact if_neg fun hboth => nomatch hboth.1

/-- A call of `step` advances the timer by what the guest sleeps. -/
theorem ticks_step (m : Machine κ) :
    m.step.2.timer.ticks = m.timer.ticks + m.slept.toUInt64 := by
  cases m.situation with
  | stopped hhalted =>
      rw [step_of_halted hhalted, slept_of_idle (executing_of_stopped hhalted)]
      exact (UInt64.add_zero _).symm
  | held hpauses =>
      rw [step_of_pauses hpauses, slept_of_idle (executing_of_held hpauses)]
      exact (UInt64.add_zero _).symm
  | failed hhalted hpauses hattempt =>
      rw [step_of_fault hhalted hpauses hattempt, slept_of_idle (executing_of_failed hattempt)]
      exact (UInt64.add_zero _).symm
  | @done word flow n hhalted hpauses hattempt =>
      obtain ⟨i, hi, hexecute⟩ := instruction_of_done hhalted hpauses hattempt
      rw [step_of_success hhalted hpauses hattempt, slept, hi]
      show (n.retire m.cpu.pc word flow).2.timer.ticks = _
      rw [timer_retire, ticks_execute hexecute]
      simp only [Option.some.injEq]
      rfl

/-- Other operations tell the debugger what they are there for, a reset included. -/
theorem debugger_perform {op : Operation κ} (hop : op.isStepping = false) :
    (m.perform op).2.debugger = m.debugger.after op.debuggerWork := by
  by_cases hreset : op = .reset
  · subst hreset
    rfl
  · exact (framed_perform hop hreset).debugger

end Machine

/-! ## The history of the debugger -/

/-- What a call comes to for the debugger. -/
def Act.debuggerWork {κ : Type} [Console κ] : Act κ → List Debugger.Operation
  | .step on => on.stepWork
  | .other op => op.debuggerWork

namespace Machine

variable {κ : Type} [Console κ]

/-- **The debugger of a machine is a debugger with a history.**  What holds of every
debugger after every history of its own holds of those in machines. -/
theorem debugger_after (config : Config) (console : κ) (history : List (Operation κ)) :
    ((new config console).after history).debugger =
      (Debugger.fresh config.breakpointCapacity config.eventListSize).after
        (((new config console).chronicle history).flatMap Act.debuggerWork) := by
  refine chronicle_keeps (P := fun acts m => m.debugger =
      (Debugger.fresh config.breakpointCapacity config.eventListSize).after
        (acts.flatMap Act.debuggerWork)) ?_ ?_ history [] (new config console) rfl
  · intro acts m h
    rw [debugger_step, h, ← Debugger.after_append, List.flatMap_append, List.flatMap_singleton]
    rfl
  · intro acts m op hop h
    rw [debugger_perform hop, h, ← Debugger.after_append, List.flatMap_append,
      List.flatMap_singleton]
    rfl

/-- So the breakpoints of a machine are a bounded set as well. -/
theorem sound_debugger (config : Config) (console : κ) (history : List (Operation κ)) :
    Debugger.Sound config.breakpointCapacity
      ((new config console).after history).debugger := by
  rw [debugger_after]
  exact .after _ _ _

end Machine

end SandboxCpu
