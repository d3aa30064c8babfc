import SandboxCpu.Proofs.Machine.Confinement

/-!
# A debugger does not change what it watches

The *architecture* of a machine is all of it that a guest or its host would
still see without a debugger.  A machine under a debugger goes through the same
architectures as its twin whose debugger is off, in the same order: each call
of `step` either pauses at a breakpoint and changes no architecture, or does to
the architecture what the twin's next call does.

Two facts make this more than a comparison of single steps.  A breakpoint never
holds the machine twice in a row (`pauses_held`), so the debugged machine falls
behind by at most one call in two.  And the account of the two machines is kept
by `attempts`, the number of calls that went beyond a pause.

## Main results

* `Follows.step` — one call beyond a pause matches one call of the twin.
* `Follows.stepped` — so do any number of calls.
* `debugger_transparent` — both, with what each call answers and how far apart
  the two machines can be.
-/

namespace SandboxCpu

/-- What there is of a machine without its debugger, its phase apart. -/
structure Architecture (κ : Type) where
  /-- Registers, pointers, flags and the halted bit. -/
  cpu : Cpu
  /-- Bytes and page table. -/
  memory : Memory
  heap : Heap
  timer : Timer
  exitCode : Int32
  console : κ
  instructions : UInt64
  cycles : UInt64
  /-- The traced instructions, oldest first. -/
  trace : List TraceEntry
  /-- How many instructions the tracer keeps. -/
  traceRoom : Nat
  /-- The choices with which the machine was made. -/
  config : Config

/-- The architecture of a machine. -/
def Machine.architecture {κ : Type} (m : Machine κ) : Architecture κ where
  cpu := m.cpu
  memory := m.memory
  heap := m.heap
  timer := m.timer
  exitCode := m.exitCode
  console := m.console
  instructions := m.debugger.instructions
  cycles := m.debugger.cycles
  trace := Ring.toList m.tracer
  traceRoom := Ring.capacity m.tracer
  config := m.config

/-- What an answer says of the guest alone: a pause after an instruction is no
different from going on. -/
def StepOutcome.unpaused : StepOutcome → StepOutcome
  | ongoing => ongoing
  | halted => halted
  | paused => ongoing

namespace Debugger

theorem counters_release (d : Debugger) :
    d.release.instructions = d.instructions ∧ d.release.cycles = d.cycles := by
  unfold release
  split <;> exact ⟨rfl, rfl⟩

theorem counters_hold (d : Debugger) (pc : UInt32) :
    (d.hold pc).instructions = d.instructions ∧ (d.hold pc).cycles = d.cycles :=
  counters_record _ _

end Debugger

/-- The likeness of machines that have one architecture. -/
def Likeness.architectural (κ : Type) [Console κ] : Likeness κ κ where
  console c c' := c' = c
  visible _ := True
  debugger d d' := d'.instructions = d.instructions ∧ d'.cycles = d.cycles
  write := by
    rintro c _ rfl bytes
    exact ⟨rfl, rfl⟩
  readLine := by
    rintro c _ rfl limit
    exact ⟨rfl, rfl⟩
  record := by
    rintro d d' ⟨hi, hc⟩ e
    obtain ⟨hi₁, hc₁⟩ := d.counters_record e
    obtain ⟨hi₂, hc₂⟩ := d'.counters_record e
    exact ⟨by rw [hi₁, hi₂, hi], by rw [hc₁, hc₂, hc]⟩
  addCycles := by
    rintro d d' ⟨hi, hc⟩ n
    exact ⟨hi, congrArg (· + n) hc⟩
  countInstruction := by
    rintro d d' ⟨hi, hc⟩
    exact ⟨congrArg (· + 1) hi, congrArg (· + 1) hc⟩

namespace Machine

/-! ## What the debugger does beside the architecture -/

section Beside

variable {κ : Type} {m : Machine κ}

/-- A debugger with the same counters makes no difference, and neither does the
phase. -/
theorem architecture_withDebugger {d : Debugger} (m : Machine κ) (phase : Phase)
    (h : d.instructions = m.debugger.instructions ∧ d.cycles = m.debugger.cycles) :
    ({ m with debugger := d, phase := phase } : Machine κ).architecture = m.architecture := by
  simp only [architecture, h.1, h.2]

theorem architecture_released (m : Machine κ) : m.released.architecture = m.architecture :=
  architecture_withDebugger m _ m.debugger.counters_release

theorem architecture_held (m : Machine κ) : m.held.architecture = m.architecture :=
  architecture_withDebugger m _ (m.debugger.counters_hold m.cpu.pc)

/-- The events that end a step are not part of the architecture. -/
theorem architecture_retire (m : Machine κ) (pc word : UInt32) (flow : Flow) :
    (m.retire pc word flow).2.architecture = (m.advance pc word flow).architecture := by
  unfold retire
  dsimp only
  split
  · exact architecture_withDebugger (m.advance pc word flow) _ (Debugger.counters_record _ _)
  · split
    · exact architecture_withDebugger (m.advance pc word flow) _ (Debugger.counters_record _ _)
    · rfl

/-- How a success ends: a stopped guest comes before a pause. -/
theorem retire_fst (m : Machine κ) (pc word : UInt32) (flow : Flow) :
    (m.retire pc word flow).1 =
      if flow = .halt then .halted
      else if m.debugger.isSingleStep then .paused else .ongoing := by
  unfold retire
  dsimp only
  split
  · rfl
  · rw [show m.debugger.countInstruction.isSingleStep = m.debugger.isSingleStep from rfl]
    split <;> rfl

/-- A breakpoint does not hold the machine that it just held. -/
theorem pauses_held (m : Machine κ) : m.held.pauses = false := by
  rw [Bool.eq_false_iff]
  intro h
  have hresume := (pauses_iff.mp h).2.2.2
  rw [held, Debugger.hold, Debugger.resume_record] at hresume
  exact hresume rfl

end Beside

variable {κ : Type} [Console κ] {m m' n : Machine κ}

/-- The architecture after a success: that of the instruction, moved on. -/
theorem architecture_step {word : UInt32} {flow : Flow} (hhalted : m.cpu.halted = false)
    (hpauses : m.pauses = false) (h : m.released.attempt m.cpu.pc = .ok (word, flow, n)) :
    m.step.2.architecture = (n.advance m.cpu.pc word flow).architecture := by
  rw [step_of_success hhalted hpauses h]
  exact architecture_retire n m.cpu.pc word flow

theorem alike_iff_architecture :
    (Likeness.architectural κ).Alike m m' ↔ m'.architecture = m.architecture := by
  simp only [architecture, Architecture.mk.injEq]
  constructor
  · intro h
    exact ⟨h.cpu, Memory.agreesOn_all_iff.mp h.memory, h.heap, h.timer, h.exitCode, h.console,
      h.debugger.1, h.debugger.2, h.trace, h.traceRoom, h.config⟩
  · rintro ⟨hcpu, hmemory, hheap, htimer, hexit, hconsole, hi, hc, htrace, hroom, hconfig⟩
    exact ⟨hcpu, Memory.agreesOn_all_iff.mpr hmemory, hheap, htimer, hexit, hconfig, hconsole,
      ⟨hi, hc⟩, htrace, hroom⟩

/-! ## One call -/

/-- The debugger stays on or off. -/
theorem enabled_stepped (n : Nat) (m : Machine κ) :
    (m.stepped n).debugger.enabled = m.debugger.enabled :=
  congrArg Debugger.Setting.enabled (Confined.stepped n m).setting

/-- The second machine is a plain twin of the first: it has the same architecture
and its debugger is off. -/
structure Follows (v p : Machine κ) : Prop where
  same : p.architecture = v.architecture
  off : p.debugger.enabled = false

/-- A call beyond a pause is matched by one call of the twin: the answers say the
same of the guest, and the machines are twins again. -/
theorem Follows.step {v p : Machine κ} (h : Follows v p) (hpauses : v.pauses = false) :
    p.step.1 = v.step.1.map StepOutcome.unpaused ∧ Follows v.step.2 p.step.2 := by
  have hcpu : p.cpu = v.cpu := congrArg Architecture.cpu h.same
  have hoff : p.step.2.debugger.enabled = false := (enabled_stepped 1 p).trans h.off
  cases hhalted : v.cpu.halted with
  | true =>
      have hhalted' : p.cpu.halted = true := hcpu ▸ hhalted
      rw [step_of_halted hhalted'] at hoff ⊢
      rw [step_of_halted hhalted]
      exact ⟨rfl, h.same, hoff⟩
  | false =>
      have hhalted' : p.cpu.halted = false := hcpu ▸ hhalted
      have hpauses' : p.pauses = false := pauses_of_off h.off
      have hreleased : p.released.architecture = v.released.architecture := by
        rw [architecture_released, architecture_released, h.same]
      obtain ⟨f, hx, hy⟩ | ⟨⟨word, flow, n⟩, ⟨word', flow', n'⟩, hx, hy, hword, hflow, hn⟩ :=
        ((alike_iff_architecture.mpr hreleased).attempt v.cpu.pc).elim
      · rw [← hcpu] at hy
        rw [step_of_fault hhalted' hpauses' hy] at hoff ⊢
        rw [step_of_fault hhalted hpauses hx]
        exact ⟨rfl, hreleased, hoff⟩
      · cases hword
        cases hflow
        rw [← hcpu] at hy
        -- The twin's debugger is off after the attempt too, so it never pauses.
        have hsingle : n'.debugger.isSingleStep = false := by
          rw [isSingleStep_attempt hy, Debugger.isSingleStep, h.off, Bool.false_and]
        rw [step_of_success hhalted' hpauses' hy] at hoff ⊢
        rw [step_of_success hhalted hpauses hx]
        refine ⟨?_, ?_, hoff⟩
        · simp only [retire_fst, hsingle, Bool.false_eq_true, ↓reduceIte, Except.map]
          split
          · rfl
          · split <;> rfl
        · change (n'.retire _ _ _).2.architecture = (n.retire _ _ _).2.architecture
          rw [architecture_retire, architecture_retire, hcpu]
          exact alike_iff_architecture.mp (hn.advance _ _ _)

/-- A breakpoint pause changes nothing of the architecture. -/
theorem step_pausing (hpauses : m.pauses = true) :
    m.step.1 = .ok .paused ∧ m.step.2.architecture = m.architecture ∧
      m.step.2.pauses = false := by
  rw [step_of_pauses hpauses]
  exact ⟨rfl, architecture_held m, pauses_held m⟩

/-! ## Many calls -/

/-- After any number of calls the machine stands where its twin stands after as
many calls as went beyond a pause. -/
theorem Follows.stepped {v p : Machine κ} (h : Follows v p) (n : Nat) :
    Follows (v.stepped n) (p.stepped (v.attempts n)) := by
  induction n with
  | zero => exact h
  | succ n ih =>
      rw [stepped_succ, attempts_succ]
      cases hpauses : (v.stepped n).pauses with
      | true => exact ⟨ih.same.trans (step_pausing hpauses).2.1.symm, ih.off⟩
      | false =>
          show Follows _ (p.stepped (v.attempts n + 1))
          rw [stepped_succ]
          exact (ih.step hpauses).2

/-- The machine keeps up with half of its calls: whatever number of attempts is
asked for, twice as many calls are enough to make just that number. -/
theorem exists_attempts_eq (m : Machine κ) (n : Nat) :
    ∃ k, k ≤ 2 * n ∧ m.attempts k = n := by
  induction n with
  | zero => exact ⟨0, Nat.le_refl 0, rfl⟩
  | succ n ih =>
      obtain ⟨k, hk, hattempts⟩ := ih
      cases hpauses : (m.stepped k).pauses with
      | false =>
          refine ⟨k + 1, by omega, ?_⟩
          rw [attempts_succ, hattempts, hpauses]
          rfl
      | true =>
          -- The call after a pause goes beyond it.
          have hnext : (m.stepped (k + 1)).pauses = false := by
            rw [stepped_succ]
            exact (step_pausing hpauses).2.2
          refine ⟨k + 2, by omega, ?_⟩
          rw [attempts_succ, attempts_succ, hattempts, hpauses, hnext]
          rfl

/-! ## Main result -/

/-- **A debugger is transparent.**  Let two machines have one architecture, and
let the debugger of the second be off.  Each call of `step` on the first either
is a breakpoint pause, which leaves the architecture as it was and is not
followed by another, or changes the architecture as the next call on the second
does, with the same fault, with `halted` exactly when the second says so, and
with `ongoing` or `paused` where the second says `ongoing`.

So the first machine gets wherever the second gets, in at most twice as many
calls. -/
theorem debugger_transparent {v v' : Machine κ} (hsame : v'.architecture = v.architecture)
    (hoff : v'.debugger.enabled = false) :
    (∀ n, (v'.stepped (v.attempts n)).architecture = (v.stepped n).architecture ∧
      if (v.stepped n).pauses then
        (v.stepped n).step.1 = .ok .paused ∧
          (v.stepped n).step.2.architecture = (v.stepped n).architecture ∧
          (v.stepped n).step.2.pauses = false
      else
        (v'.stepped (v.attempts n)).step.1 =
            (v.stepped n).step.1.map StepOutcome.unpaused ∧
          (v'.stepped (v.attempts n)).step.2.architecture =
            (v.stepped n).step.2.architecture) ∧
    ∀ n, ∃ k, k ≤ 2 * n ∧ (v.stepped k).architecture = (v'.stepped n).architecture := by
  have h : Follows v v' := ⟨hsame, hoff⟩
  constructor
  · intro n
    have hn := h.stepped n
    refine ⟨hn.same, ?_⟩
    split
    · rename_i hpauses
      exact step_pausing hpauses
    · rename_i hpauses
      rw [Bool.not_eq_true] at hpauses
      obtain ⟨hanswer, hnext⟩ := hn.step hpauses
      exact ⟨hanswer, hnext.same⟩
  · intro n
    obtain ⟨k, hk, hattempts⟩ := exists_attempts_eq v n
    refine ⟨k, hk, ?_⟩
    rw [← (h.stepped k).same, hattempts]

/-- The new machine with a debugger that pauses wherever it can: at the entry, and
after each instruction. -/
def watched : Machine QueueConsole :=
  let m := Machine.new {} {}
  { m with debugger := { m.debugger with
      enabled := true, singleStep := true, breakpoints := [m.config.entryPc] } }

/-- A machine that pauses at once gets where the new machine gets. -/
theorem debugger_transparent_watched :
    (Machine.new {} {} : Machine QueueConsole).architecture = watched.architecture ∧
      (Machine.new {} {} : Machine QueueConsole).debugger.enabled = false ∧
      watched.pauses = true ∧
      ∀ n, ∃ k, k ≤ 2 * n ∧ (watched.stepped k).architecture =
        ((Machine.new {} {} : Machine QueueConsole).stepped n).architecture := by
  have hsame : (Machine.new {} {} : Machine QueueConsole).architecture =
      watched.architecture := rfl
  have hpauses : watched.pauses = true := by decide
  exact ⟨hsame, rfl, hpauses, (debugger_transparent hsame rfl).2⟩

end Machine

end SandboxCpu
