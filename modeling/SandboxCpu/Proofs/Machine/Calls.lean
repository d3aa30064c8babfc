import SandboxCpu.Proofs.Machine.Likeness

/-!
# Calls of `step`

What one call of `Machine.step` does, said as four equations, and what it means
to call it over and over.

A call meets one of four situations (`situation`).  The guest has stopped, and only the phase
changes (`step_of_halted`).  A breakpoint holds the machine, which is noted and
otherwise changes nothing (`step_of_pauses`).  The attempt at the next
instruction fails, and the machine is as it was but for the phase and the spent
resume marker (`step_of_fault`).  Or the attempt succeeds, and its account is
kept (`step_of_success`).  Nothing after this module unfolds `step`.

`Machine.stepped n` calls `step` as often as it is told, whatever the answers;
`Machine.attempts` counts the calls that went beyond a breakpoint pause.
-/

namespace SandboxCpu

namespace Debugger

/-- The debugger that lets an instruction go: switched on, it forgets where
execution paused. -/
def release (d : Debugger) : Debugger := if d.enabled then { d with resume := none } else d

/-- The debugger that holds execution at an address. -/
def hold (d : Debugger) (pc : UInt32) : Debugger :=
  { d with resume := some pc }.record (.breakpoint pc)

/-- Whether the debugger holds execution at an address. -/
def holds (d : Debugger) (pc : UInt32) : Bool :=
  d.enabled && d.breakpoints.contains pc && !(d.resume == some pc)

theorem holds_iff {d : Debugger} {pc : UInt32} :
    d.holds pc = true ↔ d.enabled = true ∧ pc ∈ d.breakpoints ∧ d.resume ≠ some pc := by
  simp only [holds, Bool.and_eq_true, List.contains_iff_mem, Bool.not_eq_true',
    beq_eq_false_iff_ne, and_assoc]

/-- The question before an instruction, answered. -/
theorem pauseBefore_eq (d : Debugger) (pc : UInt32) :
    d.pauseBefore pc = if d.holds pc then (true, d.hold pc) else (false, d.release) := by
  unfold pauseBefore
  cases henabled : d.enabled with
  | false => simp [holds, release, henabled]
  | true =>
      by_cases hresume : d.resume = some pc
      · simp [holds, release, henabled, hresume]
      · by_cases hmem : pc ∈ d.breakpoints
        · simp [holds, hold, henabled, hresume, hmem]
        · simp [holds, release, henabled, hresume, hmem]

end Debugger

namespace Machine

/-! ## One call -/

section Debugged

variable {κ : Type} {m : Machine κ}

/-- The next call of `step` does nothing but pause at a breakpoint. -/
def pauses (m : Machine κ) : Bool := !m.cpu.halted && m.debugger.holds m.cpu.pc

/-- A machine pauses before it executes exactly when it has not stopped, its
debugger is on, and it stands at a breakpoint at which it did not just pause. -/
theorem pauses_iff :
    m.pauses = true ↔
      m.cpu.halted = false ∧ m.debugger.enabled = true ∧
        m.cpu.pc ∈ m.debugger.breakpoints ∧ m.debugger.resume ≠ some m.cpu.pc := by
  simp only [pauses, Bool.and_eq_true, Bool.not_eq_true', Debugger.holds_iff]

/-- A debugger that is off pauses nothing. -/
theorem pauses_of_off (hoff : m.debugger.enabled = false) : m.pauses = false := by
  simp only [pauses, Debugger.holds, hoff, Bool.false_and, Bool.and_false]

/-- The machine that a breakpoint holds. -/
def held (m : Machine κ) : Machine κ :=
  { m with debugger := m.debugger.hold m.cpu.pc, phase := .paused }

/-- The machine about to attempt an instruction. -/
def released (m : Machine κ) : Machine κ :=
  { m with debugger := m.debugger.release, phase := .running }

/-- A fetched word is one that memory lets be read and executed. -/
theorem readWord_of_fetch {pc word : UInt32} (h : m.fetch pc = .ok word) :
    m.memory.readWord pc .fetching = .ok word := by
  unfold fetch at h
  split at h
  · cases h
    assumption
  · cases h

end Debugged

variable {κ : Type} [Console κ] {m n : Machine κ}

theorem step_of_halted (h : m.cpu.halted = true) :
    m.step = (.ok .halted, { m with phase := .ended }) := by
  simp only [step, h, ↓reduceIte]

theorem step_of_pauses (h : m.pauses = true) : m.step = (.ok .paused, m.held) := by
  simp only [pauses, Bool.and_eq_true, Bool.not_eq_true'] at h
  simp only [step, h.1, Debugger.pauseBefore_eq, h.2, ↓reduceIte, Bool.false_eq_true, held]

/-- A call that neither finds the guest stopped nor pauses goes on to the next
instruction. -/
private theorem step_of_not_pauses (hhalted : m.cpu.halted = false)
    (hpauses : m.pauses = false) :
    m.step = match m.released.attempt m.cpu.pc with
      | .ok (word, flow, n) =>
          (.ok (n.retire m.cpu.pc word flow).1,
            { (n.retire m.cpu.pc word flow).2 with
              phase := (n.retire m.cpu.pc word flow).1.phase })
      | .error fault => (.error fault, { m.released with phase := .faulted }) := by
  have hholds : m.debugger.holds m.cpu.pc = false := by
    simpa only [pauses, hhalted, Bool.not_false, Bool.true_and] using hpauses
  have hreleased : ({ m with debugger := m.debugger.release, phase := .running } : Machine κ) =
      m.released := rfl
  simp only [step, hhalted, Bool.false_eq_true, ↓reduceIte, Debugger.pauseBefore_eq, hholds,
    hreleased, InPlace.on_executeAt]
  cases m.released.attempt m.cpu.pc with
  | error f => rfl
  | ok r => rfl

theorem step_of_fault (hhalted : m.cpu.halted = false) (hpauses : m.pauses = false)
    {f : Fault} (h : m.released.attempt m.cpu.pc = .error f) :
    m.step = (.error f, { m.released with phase := .faulted }) := by
  rw [step_of_not_pauses hhalted hpauses, h]

theorem step_of_success (hhalted : m.cpu.halted = false) (hpauses : m.pauses = false)
    {word : UInt32} {flow : Flow} (h : m.released.attempt m.cpu.pc = .ok (word, flow, n)) :
    m.step = (.ok (n.retire m.cpu.pc word flow).1,
      { (n.retire m.cpu.pc word flow).2 with
        phase := (n.retire m.cpu.pc word flow).1.phase }) := by
  rw [step_of_not_pauses hhalted hpauses, h]

/-- The situations that a call of `step` can meet. -/
inductive Situation (m : Machine κ) : Prop
  | stopped (hhalted : m.cpu.halted = true)
  | held (hpauses : m.pauses = true)
  | failed {f : Fault} (hhalted : m.cpu.halted = false) (hpauses : m.pauses = false)
      (hattempt : m.released.attempt m.cpu.pc = .error f)
  | done {word : UInt32} {flow : Flow} {n : Machine κ} (hhalted : m.cpu.halted = false)
      (hpauses : m.pauses = false)
      (hattempt : m.released.attempt m.cpu.pc = .ok (word, flow, n))

/-- There is always one. -/
theorem situation (m : Machine κ) : Situation m := by
  cases hhalted : m.cpu.halted with
  | true => exact .stopped hhalted
  | false =>
      cases hpauses : m.pauses with
      | true => exact .held hpauses
      | false =>
          cases hattempt : m.released.attempt m.cpu.pc with
          | error f => exact .failed hhalted hpauses hattempt
          | ok r => exact .done hhalted hpauses hattempt

/-- The instruction that the next call of `step` executes, if it executes one: its
address and its word. -/
def executing (m : Machine κ) : Option TraceEntry :=
  if m.cpu.halted || m.pauses then none
  else
    match m.released.attempt m.cpu.pc with
    | .ok (word, _, _) => some ⟨m.cpu.pc, word⟩
    | .error _ => none

/-- A successful attempt, taken apart: the word was fetched, it is that of an
instruction, and the instruction was executed. -/
theorem of_attempt {pc word : UInt32} {flow : Flow}
    (h : m.attempt pc = .ok (word, flow, n)) :
    m.fetch pc = .ok word ∧
      ∃ i, decodeAt pc word = .ok i ∧ m.execute pc i = .ok (flow, n) := by
  unfold attempt at h
  cases hfetch : m.fetch pc with
  | error e => rw [hfetch] at h; cases h
  | ok w =>
      rw [hfetch] at h
      change (decodeAt pc w >>= _) = _ at h
      cases hdecode : decodeAt pc w with
      | error e => rw [hdecode] at h; cases h
      | ok i =>
          rw [hdecode] at h
          change (m.execute pc i >>= _) = _ at h
          cases hexecute : m.execute pc i with
          | error e => rw [hexecute] at h; cases h
          | ok r =>
              rw [hexecute] at h
              cases h
              exact ⟨rfl, i, hdecode, hexecute⟩

/-- What a step executes is the word that it can fetch where it stands. -/
theorem fetch_of_executing {e : TraceEntry} (h : m.executing = some e) :
    e.pc = m.cpu.pc ∧ m.fetch m.cpu.pc = .ok e.word := by
  unfold executing at h
  split at h
  · cases h
  · split at h
    · rename_i word flow n hattempt
      cases h
      refine ⟨rfl, ?_⟩
      show m.released.fetch m.cpu.pc = .ok word
      exact (of_attempt hattempt).1
    · cases h

/-! ## Many calls -/

/-- The machine after `n` calls of `step`, whatever their answers. -/
def stepped : Nat → Machine κ → Machine κ
  | 0, m => m
  | n + 1, m => stepped n m.step.2

/-- How many of the first `n` calls do more than pause at a breakpoint. -/
def attempts : Nat → Machine κ → Nat
  | 0, _ => 0
  | n + 1, m => (if m.pauses then 0 else 1) + attempts n m.step.2

theorem stepped_add (i j : Nat) (m : Machine κ) :
    stepped (i + j) m = stepped j (stepped i m) := by
  induction i generalizing m with
  | zero => rw [Nat.zero_add]; rfl
  | succ i ih =>
      rw [Nat.succ_add]
      exact ih m.step.2

/-- The last of several calls. -/
theorem stepped_succ (n : Nat) (m : Machine κ) :
    stepped (n + 1) m = (stepped n m).step.2 := stepped_add n 1 m

/-- The last of several calls, counted. -/
theorem attempts_succ (n : Nat) (m : Machine κ) :
    attempts (n + 1) m = attempts n m + if (stepped n m).pauses then 0 else 1 := by
  induction n generalizing m with
  | zero => rw [attempts, attempts, attempts, Nat.add_comm]; rfl
  | succ n ih =>
      rw [attempts, ih, attempts, Nat.add_assoc]
      rfl

end Machine

end SandboxCpu
