import SandboxCpu.Machine.Operation
import SandboxCpu.Proofs.Isa.Conformance

/-!
# A step does what the table says

What a call of `Machine.step` does to a machine that has not stopped, is not
held by a breakpoint, and can fetch a word that decodes, is given by the row of
that word in the table of operations (`step_conforms`).

A row's effect is all that happens to processor, memory, heap, timer, console and
exit code.  Beside it the program counter moves on, and one instruction and one
cycle are counted (`Effect.Done`); ticks that the guest sleeps are further
cycles.  A row's fault leaves the machine as it was, but for its phase and the
spent resume marker (`StepsTo`).

The one departure from the table is a console that gives a longer line than the
call asked for (`Overrun`).  The row of the call cuts the line off; the step stores
all of it if the guest may write there, and answers with its length.
-/

namespace SandboxCpu

open Word Isa

namespace Isa

variable {κ : Type}

/-- How a step ends that executed an instruction. -/
def Effect.outcome (e : Effect κ) (d : Debugger) : StepOutcome :=
  if e.halts then .halted
  else if d.isSingleStep then .paused
  else .ongoing

/-- The second machine is the first after a step that executed an instruction with
an effect. -/
structure Effect.Done (e : Effect κ) (m n : Machine κ) : Prop extends e.Brings m n where
  pc : n.cpu.pc = e.target.getD (plus m.cpu.pc 4)
  instructions : n.debugger.instructions = m.debugger.instructions + 1
  cycles : n.debugger.cycles = m.debugger.cycles + e.sleeps.toUInt64 + 1

theorem Executed.done {e : Effect κ} {m n n' : Machine κ} {flow : Flow} {word : UInt32}
    (h : Executed e m (flow, n))
    (hsame : n'.architecture = (n.advance m.cpu.pc word flow).architecture) : e.Done m n' := by
  simp only [Machine.architecture, Machine.advance, Architecture.mk.injEq] at hsame
  obtain ⟨hcpu, hmemory, hheap, htimer, hexit, hconsole, hi, hc, -, -, hconfig⟩ := hsame
  exact {
    reg := fun r => by rw [hcpu]; exact h.reg r
    flags := by rw [hcpu]; exact h.flags
    sp := by rw [hcpu]; exact h.sp
    fp := by rw [hcpu]; exact h.fp
    halted := by rw [hcpu]; exact h.halted
    byteAt := fun a => by rw [hmemory]; exact h.byteAt a
    protectionAt := fun a => by rw [hmemory]; exact h.protectionAt a
    heap := hheap.trans h.heap
    timer := by rw [htimer]; exact h.timer
    exitCode := hexit.trans h.exitCode
    console := hconsole.trans h.console
    config := hconfig.trans h.config
    pc := by rw [hcpu]; exact h.next _
    instructions := hi.trans (congrArg (· + 1) h.instructions)
    cycles := hc.trans (congrArg (· + 1) h.cycles) }

end Isa

namespace Machine

variable {κ : Type} [Console κ] {m : Machine κ}

/-- With the word fetched and decoded, an attempt is as good as the execution. -/
theorem attempt_eq_execute {pc word : UInt32} {i : Instruction}
    (hread : m.memory.readWord pc .fetching = .ok word)
    (hdecode : Instruction.decode word = .ok i) :
    m.attempt pc = (m.execute pc i).map fun r => (word, r) := by
  have hfetch : m.fetch pc = .ok word := by rw [fetch, hread]
  have hdecodeAt : decodeAt pc word = .ok i := by rw [decodeAt, hdecode]
  rw [attempt, hfetch]
  change (decodeAt pc word >>= _) = _
  rw [hdecodeAt]
  change (m.execute pc i >>= _) = _
  cases m.execute pc i <;> rfl

/-- What is performed does not depend on what the debugger remembers. -/
theorem performed_released (m : Machine κ) (w : UInt32) (op : Opcode) :
    performed m.released w op = performed m w op := by
  cases op with
  | bare op => cases op <;> rfl
  | _ => rfl

/-- What a step comes to that is neither refused nor held: an effect, or a fault that leaves
the machine as it was. -/
def StepsTo (m : Machine κ) : Except Fault (Effect κ) → Prop
  | .ok e => m.step.1 = .ok (e.outcome m.debugger) ∧ e.Done m m.step.2
  | .error f => m.step = (.error f, { m with debugger := m.debugger.release, phase := .faulted })

/-- A step comes to what is performed. -/
theorem stepsTo_performed {word : UInt32} {i : Instruction} (hhalted : m.cpu.halted = false)
    (hpauses : m.pauses = false) (hgranted : m.memory.Granted .fetching m.cpu.pc 4)
    (hword : word = UInt32.ofNat (number m.memory m.cpu.pc.toNat 4))
    (hdecode : Instruction.decode word = .ok i) : m.StepsTo (performed m word i.opcode) := by
  have happlied := (Instruction.applied_of_decode hdecode).2
  have hread : m.released.memory.readWord m.cpu.pc .fetching = .ok word := by
    rw [Memory.readWord_eq_ok_iff, hword, Memory.ofNat_number_four]
    exact ⟨Memory.allows_iff_granted.mpr hgranted, rfl⟩
  have hattempt := attempt_eq_execute hread hdecode
  obtain ⟨f, hrow, hexecute⟩ | ⟨e, ⟨flow, n⟩, hrow, hexecute, hexecuted⟩ :=
    (execute_conforms (m := m.released) hhalted word i.opcode).elim
  · rw [← happlied] at hexecute
    change m.released.execute m.cpu.pc i = .error f at hexecute
    rw [hexecute] at hattempt
    rw [← performed_released, hrow]
    exact step_of_fault hhalted hpauses hattempt
  · rw [← happlied] at hexecute
    change m.released.execute m.cpu.pc i = .ok (flow, n) at hexecute
    rw [hexecute] at hattempt
    have hstep := step_of_success hhalted hpauses hattempt
    rw [← performed_released, hrow, StepsTo, hstep]
    constructor
    · have hstops : flow = .halt ↔ e.halts = true := hexecuted.stops
      rw [retire_fst, isSingleStep_attempt hattempt]
      simp only [hstops]
      rfl
    · exact (Executed.of_debugger m.debugger.counters_release hexecuted).done
        (architecture_retire n m.cpu.pc word flow)

/-! ## Lines that are too long -/

omit [Console κ] in
/-- The most bytes of a line that the guest asks for, within the configured limit. -/
def readBound (m : Machine κ) : Nat := min m.systemCall.arg1.toNat m.config.readLimit

/-- The console gives a longer line than the call asks for. -/
structure Overrun (m : Machine κ) (line : List UInt8) (console : κ) : Prop where
  number : m.systemCall.number = 3
  range : m.memory.Granted .writing m.systemCall.arg0 m.systemCall.arg1.toNat
  given : Console.readLine m.console m.readBound = (.ok line, console)
  long : m.readBound < line.length

/-- Without such a line, what the host does is what the row of the call says. -/
theorem provided_eq_service (h : ∀ line console, ¬ m.Overrun line console) :
    provided m m.systemCall =
      service m m.systemCall.number m.systemCall.arg0 m.systemCall.arg1 := by
  by_cases hnumber : m.systemCall.number = 3
  · rw [provided, if_pos hnumber, hnumber, receiveLine_eq]
    · rfl
    · intro hrange line console hgiven
      exact Nat.not_lt.mp fun hlong => h line console ⟨hnumber, hrange, hgiven, hlong⟩
  · rw [provided, if_neg hnumber]

namespace Overrun

variable {line : List UInt8} {console : κ}

theorem provided_eq (h : m.Overrun line console) :
    provided m m.systemCall = storeLine m m.systemCall.arg0 line console := by
  have hgiven := h.given
  rw [readBound] at hgiven
  rw [provided, if_pos h.number, receiveLine, if_pos h.range, hgiven]

/-- The row of the call answers with the length at which it cuts the line off. -/
theorem dest_service (h : m.Overrun line console) :
    (service m m.systemCall.number m.systemCall.arg0 m.systemCall.arg1).dest =
      some (register 0, UInt32.ofNat m.readBound) := by
  have hgiven := h.given
  have hlength : (line.take m.readBound).length = m.readBound := by
    rw [List.length_take, Nat.min_eq_left (Nat.le_of_lt h.long)]
  rw [readBound] at hgiven hlength
  rw [h.number]
  show (readLine m m.systemCall.arg0 m.systemCall.arg1).dest = _
  simp only [readLine, if_pos h.range, hgiven, hlength]
  rfl

/-- The answer of the host is another, since the line is longer, and a failure is no length
at all. -/
theorem dest_storeLine (h : m.Overrun line console) :
    ∃ value, (storeLine m m.systemCall.arg0 line console).dest = some (register 0, value) ∧
      value ≠ UInt32.ofNat m.readBound := by
  have hlong := h.long
  have hbound : m.readBound ≤ 65536 := by
    have hfits := h.range.1
    have hle : m.readBound ≤ m.systemCall.arg1.toNat := Nat.min_le_left _ _
    omega
  unfold storeLine
  split
  · rename_i hgranted
    have hfits := hgranted.1
    refine ⟨_, rfl, fun heq => ?_⟩
    rw [← UInt32.toNat_inj, UInt32.toNat_ofNat', UInt32.toNat_ofNat'] at heq
    omega
  · refine ⟨_, rfl, fun heq => ?_⟩
    have hvalue : (UInt32.ofInt (-1)).toNat = 4294967295 := rfl
    rw [← UInt32.toNat_inj, hvalue, UInt32.toNat_ofNat'] at heq
    omega

/-- So no step comes to both. -/
theorem not_stepsTo (h : m.Overrun line console)
    (hstep : m.StepsTo (.ok (provided m m.systemCall))) :
    ¬ m.StepsTo (.ok (service m m.systemCall.number m.systemCall.arg0 m.systemCall.arg1)) := by
  intro hrow
  obtain ⟨value, hdest, hne⟩ := h.dest_storeLine
  have hvalue := hstep.2.reg (register 0)
  have hbound := hrow.2.reg (register 0)
  rw [h.provided_eq, Effect.regAfter, hdest] at hvalue
  rw [hvalue, Effect.regAfter, h.dest_service] at hbound
  exact hne hbound

end Overrun

/-! ## Main result -/

/-- **A step does what the table says**, unless a line is too long.  Let a machine have
neither stopped nor be held by a breakpoint, and let a word stand at its program counter
that may be read and executed in all its bytes and that decodes.  Then the top byte of the
word is the code of an operation, and the row of that operation gives the fault with which
the step ends, or the effect that it has; except if the operation is the call instruction
and the console gives a longer line than the call asks for.  Then the step stores the whole
line, if the guest may write there.  This cannot happen with a console that keeps to the
limit. -/
theorem step_conforms {word : UInt32} {i : Instruction} (hhalted : m.cpu.halted = false)
    (hpauses : m.pauses = false) (hgranted : m.memory.Granted .fetching m.cpu.pc 4)
    (hword : word = UInt32.ofNat (number m.memory m.cpu.pc.toNat 4))
    (hdecode : Instruction.decode word = .ok i) :
    i.opcode.code.toNat = word.toNat / 2 ^ 24 ∧
    (m.StepsTo (row m word i.opcode) ↔
      (i.opcode = .bare .syscall → ∀ line console, ¬ m.Overrun line console)) ∧
    (Console.KeepsLimit κ → m.StepsTo (row m word i.opcode)) ∧
    (i.opcode = .bare .syscall → ∀ line console, m.Overrun line console →
      m.StepsTo (.ok (storeLine m m.systemCall.arg0 line console))) := by
  have hperformed := stepsTo_performed hhalted hpauses hgranted hword hdecode
  have hiff : m.StepsTo (row m word i.opcode) ↔
      (i.opcode = .bare .syscall → ∀ line console, ¬ m.Overrun line console) := by
    by_cases hcall : i.opcode = .bare .syscall
    · rw [hcall] at hperformed ⊢
      change m.StepsTo (.ok (provided m m.systemCall)) at hperformed
      constructor
      · intro hrow _ line console hoverrun
        exact hoverrun.not_stepsTo hperformed hrow
      · intro hshort
        rw [provided_eq_service (hshort rfl)] at hperformed
        exact hperformed
    · have hrow : performed m word i.opcode = row m word i.opcode := by
        unfold performed
        split
        · rename_i heq
          exact absurd heq hcall
        · rfl
      rw [hrow] at hperformed
      exact iff_of_true hperformed fun h => absurd h hcall
  refine ⟨(Instruction.applied_of_decode hdecode).1, hiff, fun hkeeps => ?_, ?_⟩
  · refine hiff.mpr fun _ line console hoverrun => ?_
    exact absurd (hkeeps m.console m.readBound hoverrun.given) (Nat.not_le.mpr hoverrun.long)
  · intro hcall line console hoverrun
    rw [hcall] at hperformed
    change m.StepsTo (.ok (provided m m.systemCall)) at hperformed
    rwa [hoverrun.provided_eq] at hperformed

/-- A machine about to add a register to itself, which holds the sign bit alone. -/
def doubling : Machine QueueConsole :=
  (Machine.new {} {}).after [.load 0 (LittleEndian.bytes 0x10111000), .setReg 1 0x80000000]

/-- All three registers of the instruction are the same.  The sum is zero, and has
left both ranges. -/
theorem step_conforms_doubling :
    doubling.memory.Granted .fetching doubling.cpu.pc 4 ∧
      Instruction.decode 0x10111000 = .ok (.register .add ⟨1, 1, 1⟩) ∧
      doubling.step.1 = .ok .ongoing ∧
      doubling.step.2.cpu.reg 1 = 0 ∧
      doubling.step.2.cpu.flags =
        { zero := true, negative := false, carry := true, overflow := true } ∧
      doubling.step.2.cpu.pc = 4 := by
  have hdecode : Instruction.decode 0x10111000 = .ok (.register .add ⟨1, 1, 1⟩) := rfl
  obtain ⟨hhalted, hpauses, hgranted, hword⟩ :
      doubling.cpu.halted = false ∧ doubling.pauses = false ∧
        doubling.memory.Granted .fetching doubling.cpu.pc 4 ∧
        0x10111000 = UInt32.ofNat (number doubling.memory doubling.cpu.pc.toNat 4) := by
    decide +kernel
  obtain ⟨-, -, hstep, -⟩ := step_conforms hhalted hpauses hgranted hword hdecode
  obtain ⟨houtcome, hdone⟩ := hstep keepsLimit_queue
  refine ⟨hgranted, hdecode, ?_, ?_, ?_, ?_⟩
  · rw [houtcome]
    exact congrArg Except.ok (by decide +kernel)
  · rw [hdone.reg]
    decide +kernel
  · rw [hdone.flags]
    decide +kernel
  · rw [hdone.pc]
    decide +kernel

end Machine

/-! ## A console that gives too much -/

/-- A console that always gives the same line, and all of it. -/
structure LineConsole where
  line : List UInt8

instance : Console LineConsole where
  name _ := "line"
  write c _ := (.ok (), c)
  readLine c _ := (.ok c.line, c)

namespace Machine

/-- A machine about to read two bytes from a console that gives six. -/
def overfed (addr : UInt32) : Machine LineConsole :=
  (Machine.new {} ⟨[48, 49, 50, 51, 52, 53]⟩).after
    [.load 0 (LittleEndian.bytes 0xF0000000), .setReg 0 3, .setReg 1 addr, .setReg 2 2]

/-- The row of the call stores two bytes and answers with 2.  The step answers with 6, and
does not come to what the row says. -/
theorem step_departs_overfed :
    (overfed 0x4000).cpu.halted = false ∧ (overfed 0x4000).pauses = false ∧
      (overfed 0x4000).memory.Granted .fetching (overfed 0x4000).cpu.pc 4 ∧
      0xF0000000 = UInt32.ofNat (number (overfed 0x4000).memory (overfed 0x4000).cpu.pc.toNat 4) ∧
      Instruction.decode 0xF0000000 = .ok (.bare .syscall) ∧
      (∃ e, row (overfed 0x4000) 0xF0000000 (.bare .syscall) = .ok e ∧
        e.dest = some (register 0, 2) ∧ e.store = some (0x4000, [48, 49])) ∧
      (overfed 0x4000).step.2.cpu.reg (register 0) = 6 ∧
      (overfed 0x4000).step.2.memory.byteAt 0x4002 = 50 ∧
      ¬ (overfed 0x4000).StepsTo (row (overfed 0x4000) 0xF0000000 (.bare .syscall)) := by
  have hdest : (service (overfed 0x4000) ((overfed 0x4000).cpu.reg (register 0))
      ((overfed 0x4000).cpu.reg (register 1)) ((overfed 0x4000).cpu.reg (register 2))).dest =
        some (register 0, 2) := by decide +kernel
  obtain ⟨hhalted, hpauses, hgranted, hword⟩ :
      (overfed 0x4000).cpu.halted = false ∧ (overfed 0x4000).pauses = false ∧
        (overfed 0x4000).memory.Granted .fetching (overfed 0x4000).cpu.pc 4 ∧
        0xF0000000 =
          UInt32.ofNat (number (overfed 0x4000).memory (overfed 0x4000).cpu.pc.toNat 4) := by
    decide +kernel
  obtain ⟨hanswer, hbyte⟩ : (overfed 0x4000).step.2.cpu.reg (register 0) = 6 ∧
      (overfed 0x4000).step.2.memory.byteAt 0x4002 = 50 := by decide +kernel
  refine ⟨hhalted, hpauses, hgranted, hword, rfl, ⟨_, rfl, hdest, by decide +kernel⟩, hanswer,
    hbyte, ?_⟩
  intro hrow
  have hreg := hrow.2.reg (register 0)
  rw [hanswer, Effect.regAfter, hdest] at hreg
  exact absurd hreg (by decide)

end Machine

end SandboxCpu
