import SandboxCpu.Proofs.Machine.History
import SandboxCpu.Proofs.Machine.Transparency

/-!
# Faults are atomic and repeat

A step that fails leaves the machine as it found it, its phase and the resume
marker apart.  That it does is the atomicity of single instructions
(`InPlace.on_execute`) carried through fetching and decoding, and a fact about
debuggers: one that is off had no resume marker to lose.

A machine after a fault is *stuck* (`Machine.Stuck`): its next instruction fails
in the same way, whatever the debugger does in between.  Without a breakpoint
there, the next call is that fault again and changes nothing at all.  With one,
a call pauses and the call after it fails, for ever, and each round leaves one
more note of the breakpoint.

## Main results

* `Stuck.step_of_unwatched`, `Stuck.step_of_watched`, `Stuck.step_held` — what
  the next calls do.
* `fault_atomic` — from the failing step through all calls after it.
-/

namespace SandboxCpu

/-! ## Register numbers -/

/-- A field of four bits holds the number of a register, with nothing cut off. -/
theorem Layout.toNat_read_lt {field : BitRange} (hfield : field ∈ [rd, rs1, rs2])
    (word : UInt32) : (field.read word).toNat < 16 := by
  have hmask : field.mask = 15 ∧ field.start ≠ field.stop := by
    revert field
    decide
  rw [BitRange.read, if_neg hmask.2, hmask.1, UInt32.toNat_and]
  exact Nat.lt_of_le_of_lt Nat.and_le_right (by decide)

theorem Cpu.reg?_eq (c : Cpu) {n : Nat} (h : n < 16) : c.reg? n = .ok (c.reg (Fin.ofNat 16 n)) := by
  have hreg : (⟨n, h⟩ : Reg) = Fin.ofNat 16 n := Fin.ext (Nat.mod_eq_of_lt h).symm
  rw [Cpu.reg?, dif_pos h, hreg]

theorem Cpu.setReg?_eq (c : Cpu) {n : Nat} (h : n < 16) (value : UInt32) :
    c.setReg? n value = .ok (c.setReg (Fin.ofNat 16 n) value) := by
  have hreg : (⟨n, h⟩ : Reg) = Fin.ofNat 16 n := Fin.ext (Nat.mod_eq_of_lt h).symm
  rw [Cpu.setReg?, dif_pos h, hreg]

/-! ## Debuggers that hold and let go -/

namespace Debugger

theorem release_of_settled {d : Debugger} (h : d.Settled) :
    d.release = { d with resume := none } := by
  by_cases henabled : d.enabled = true
  · rw [release, if_pos henabled]
  · rw [release, if_neg henabled, ← h (Bool.eq_false_iff.mpr henabled)]

/-- Holding and letting go leaves a note. -/
theorem release_hold {d : Debugger} (henabled : d.enabled = true) (hresume : d.resume = none)
    (pc : UInt32) : (d.hold pc).release = d.record (.breakpoint pc) := by
  cases d
  cases henabled
  cases hresume
  rfl

end Debugger

namespace Machine

variable {κ : Type} [Console κ] {m m' : Machine κ} {f : Fault} {pc : UInt32}

/-! ## The fault names the instruction -/

omit [Console κ] in
theorem pc_of_executeRegister {op : RegisterOp} {r : RegisterArgs}
    (h : m.executeRegister pc op r = .error f) : f.pc = pc := by
  cases op
  all_goals
    simp only [executeRegister] at h
  case div | mod =>
    split at h
    · cases h
      rfl
    · cases h
  case load | loadb | pop | store | storeb | push =>
    split at h
    · cases h
      rfl
    · cases h
  all_goals cases h

theorem pc_of_execute {i : Instruction} (h : m.execute pc i = .error f) : f.pc = pc := by
  cases i with
  | bare op =>
      cases op
      case ret =>
        simp only [execute, executeBare] at h
        split at h
        · cases h
          rfl
        · cases h
      all_goals cases h
  | register op args =>
      simp only [execute] at h
      cases hop : m.executeRegister pc op args with
      | error e =>
          rw [hop] at h
          cases h
          exact pc_of_executeRegister hop
      | ok n => rw [hop] at h; cases h
  | immediate op args => cases h
  | jump op args =>
      cases op
      case call =>
        simp only [execute, executeJump] at h
        split at h
        · cases h
          rfl
        · cases h
      all_goals cases h

/-- A fault names the address at which the instruction was looked for. -/
theorem pc_of_attempt (h : m.attempt pc = .error f) : f.pc = pc := by
  unfold attempt at h
  cases hfetch : m.fetch pc with
  | error e =>
      rw [hfetch] at h
      cases h
      unfold fetch at hfetch
      split at hfetch
      · cases hfetch
      · cases hfetch
        rfl
  | ok word =>
      rw [hfetch] at h
      change (decodeAt pc word >>= _) = _ at h
      cases hdecode : decodeAt pc word with
      | error e =>
          rw [hdecode] at h
          cases h
          unfold decodeAt at hdecode
          split at hdecode
          · cases hdecode
          · cases hdecode
            rfl
      | ok i =>
          rw [hdecode] at h
          change (m.execute pc i >>= _) = _ at h
          cases hexecute : m.execute pc i with
          | error e =>
              rw [hexecute] at h
              cases h
              exact pc_of_execute hexecute
          | ok r => rw [hexecute] at h; cases h

/-! ## What a failing step leaves -/

/-- A step that fails was neither stopped nor held, and its attempt failed. -/
theorem fault_of_step (h : m.step.1 = .error f) :
    m.cpu.halted = false ∧ m.pauses = false ∧ m.released.attempt m.cpu.pc = .error f := by
  cases m.situation with
  | stopped hhalted =>
      rw [step_of_halted hhalted] at h
      cases h
  | held hpauses =>
      rw [step_of_pauses hpauses] at h
      cases h
  | failed hhalted hpauses hattempt =>
      rw [step_of_fault hhalted hpauses hattempt] at h
      cases h
      exact ⟨hhalted, hpauses, hattempt⟩
  | done hhalted hpauses hattempt =>
      rw [step_of_success hhalted hpauses hattempt] at h
      cases h

/-- Machines of one architecture fail alike. -/
theorem attempt_error_congr (hsame : m'.architecture = m.architecture)
    (h : m.attempt pc = .error f) : m'.attempt pc = .error f := by
  obtain ⟨e, hx, hy⟩ | ⟨r, r', hx, -, -⟩ := ((alike_iff_architecture.mpr hsame).attempt pc).elim
  · rw [hx] at h
    cases h
    exact hy
  · rw [hx] at h
    cases h

/-- The next instruction fails, and nothing is left to be let go. -/
structure Stuck (f : Fault) (m : Machine κ) : Prop where
  halted : m.cpu.halted = false
  phase : m.phase = .faulted
  resume : m.debugger.resume = none
  fails : m.attempt m.cpu.pc = .error f

namespace Stuck

/-- What a failing step leaves is stuck. -/
theorem of_step (hsettled : m.debugger.Settled) (h : m.step.1 = .error f) :
    Stuck f m.step.2 := by
  obtain ⟨hhalted, hpauses, hattempt⟩ := fault_of_step h
  rw [step_of_fault hhalted hpauses hattempt]
  refine ⟨hhalted, rfl, ?_, ?_⟩
  · change m.debugger.release.resume = none
    rw [Debugger.release_of_settled hsettled]
  · exact attempt_error_congr (m := m.released) rfl hattempt

/-- Other notes, and other marks of a pause that was let go, change nothing. -/
theorem congr (h : Stuck f m) (hsame : m'.architecture = m.architecture)
    (hphase : m'.phase = .faulted) (hresume : m'.debugger.resume = none) : Stuck f m' := by
  have hcpu : m'.cpu = m.cpu := congrArg Architecture.cpu hsame
  refine ⟨hcpu ▸ h.halted, hphase, hresume, ?_⟩
  rw [hcpu]
  exact attempt_error_congr hsame h.fails

/-- Where no breakpoint is, the fault comes again and nothing changes. -/
theorem step_of_unwatched (h : Stuck f m)
    (hwatch : ¬(m.debugger.enabled = true ∧ m.cpu.pc ∈ m.debugger.breakpoints)) :
    m.step = (.error f, m) := by
  have hpauses : m.pauses = false := by
    rw [Bool.eq_false_iff]
    intro hpauses
    exact hwatch ⟨(pauses_iff.mp hpauses).2.1, (pauses_iff.mp hpauses).2.2.1⟩
  have hattempt : m.released.attempt m.cpu.pc = .error f :=
    attempt_error_congr (architecture_released m) h.fails
  rw [step_of_fault h.halted hpauses hattempt]
  have hrelease : m.debugger.release = m.debugger := by
    rw [Debugger.release_of_settled fun _ => h.resume, ← h.resume]
  rw [released, hrelease, ← h.phase]

/-- At a breakpoint the machine pauses first. -/
theorem step_of_watched (h : Stuck f m) (henabled : m.debugger.enabled = true)
    (hmem : m.cpu.pc ∈ m.debugger.breakpoints) : m.step = (.ok .paused, m.held) := by
  apply step_of_pauses
  rw [pauses_iff, h.resume]
  exact ⟨h.halted, henabled, hmem, nofun⟩

/-- The call after the pause fails, and leaves one more note. -/
theorem step_held (h : Stuck f m) (henabled : m.debugger.enabled = true) :
    m.held.step =
      (.error f, { m with debugger := m.debugger.record (.breakpoint m.cpu.pc) }) := by
  have hattempt : m.held.released.attempt m.cpu.pc = .error f := by
    apply attempt_error_congr _ h.fails
    rw [architecture_released, architecture_held]
  have hhalted : m.held.cpu.halted = false := h.halted
  rw [step_of_fault hhalted (pauses_held m) hattempt]
  have hrelease : m.held.debugger.release = m.debugger.record (.breakpoint m.cpu.pc) :=
    Debugger.release_hold henabled h.resume _
  rw [released, hrelease, ← h.phase]
  rfl

/-- A note changes nothing that matters to the next attempt. -/
theorem record (h : Stuck f m) (e : Event) :
    Stuck f { m with debugger := m.debugger.record e } := by
  have hresume : (m.debugger.record e).resume = none := by
    rw [Debugger.resume_record, h.resume]
  exact h.congr (architecture_withDebugger m m.phase (Debugger.counters_record _ _)) h.phase
    hresume

/-! ## All further calls -/

theorem stepped_of_unwatched (h : Stuck f m)
    (hwatch : ¬(m.debugger.enabled = true ∧ m.cpu.pc ∈ m.debugger.breakpoints)) (k : Nat) :
    m.stepped k = m := by
  induction k with
  | zero => rfl
  | succ k ih => rw [stepped_succ, ih, h.step_of_unwatched hwatch]

end Stuck

/-- The machine with notes of a breakpoint, as many as it was met. -/
def noting (k : Nat) (m : Machine κ) : Machine κ :=
  { m with debugger :=
      (List.replicate k (Event.breakpoint m.cpu.pc)).foldl Debugger.record m.debugger }

omit [Console κ] in
theorem noting_succ (k : Nat) (m : Machine κ) :
    m.noting (k + 1) = { m.noting k with
      debugger := (m.noting k).debugger.record (.breakpoint m.cpu.pc) } := by
  rw [noting, List.replicate_succ', List.foldl_append]
  rfl

omit [Console κ] in
theorem architecture_noting (k : Nat) (m : Machine κ) :
    (m.noting k).architecture = m.architecture := by
  induction k with
  | zero => rfl
  | succ k ih =>
      rw [noting_succ, ← ih]
      exact architecture_withDebugger (m.noting k) _ (Debugger.counters_record _ _)

/-- A stuck machine stays stuck and its debugger stays set, however often the
breakpoint was met. -/
theorem Stuck.noting (h : Stuck f m) (k : Nat) :
    Stuck f (m.noting k) ∧ (m.noting k).debugger.setting = m.debugger.setting := by
  induction k with
  | zero => exact ⟨h, rfl⟩
  | succ k ih =>
      rw [noting_succ]
      exact ⟨ih.1.record _, (Debugger.setting_record _ _).trans ih.2⟩

theorem Stuck.step_noting (h : Stuck f m) (henabled : m.debugger.enabled = true)
    (hmem : m.cpu.pc ∈ m.debugger.breakpoints) (k : Nat) :
    (m.noting k).step = (.ok .paused, (m.noting k).held) ∧
      (m.noting k).held.step = (.error f, m.noting (k + 1)) := by
  obtain ⟨hstuck, hsetting⟩ := h.noting k
  simp only [Debugger.setting, Debugger.Setting.mk.injEq] at hsetting
  obtain ⟨hon, -, hbreakpoints, -⟩ := hsetting
  rw [henabled] at hon
  constructor
  · exact hstuck.step_of_watched hon (hbreakpoints ▸ hmem)
  · rw [hstuck.step_held hon, noting_succ]
    rfl

/-- Two calls are a round, and each round leaves one note. -/
theorem Stuck.stepped_of_watched (h : Stuck f m) (henabled : m.debugger.enabled = true)
    (hmem : m.cpu.pc ∈ m.debugger.breakpoints) (k : Nat) : m.stepped (2 * k) = m.noting k := by
  induction k with
  | zero => rfl
  | succ k ih =>
      obtain ⟨hpause, hfail⟩ := h.step_noting henabled hmem k
      rw [show 2 * (k + 1) = 2 * k + 1 + 1 from rfl, stepped_succ, stepped_succ, ih, hpause, hfail]

/-! ## Main result -/

/-- **Faults are atomic and repeat.**  When a step of a reachable machine fails,
the machine after it is the machine before it, but for the phase and the resume
marker, which is empty; and the fault names the address of the instruction.  It
is never about a register, since every number that a word can hold in a register
field is that of a register, which a checked access accepts.

Without a breakpoint at that address, every further call fails in the same way
and changes nothing.  With one, calls that pause and calls that fail alternate
for ever; the architecture stays as it was, and each round notes the breakpoint
once more. -/
theorem fault_atomic {s : Machine κ} (hs : s.Reachable) (hfault : s.step.1 = .error f) :
    s.step.2 = { s with
      phase := .faulted, debugger := { s.debugger with resume := none } } ∧
    f.pc = s.cpu.pc ∧
    (∀ word, ∀ field ∈ [Layout.rd, Layout.rs1, Layout.rs2],
      s.cpu.reg? (field.read word).toNat = .ok (s.cpu.reg (Layout.reg field word)) ∧
      ∀ value, s.cpu.setReg? (field.read word).toNat value =
        .ok (s.cpu.setReg (Layout.reg field word) value)) ∧
    (¬(s.debugger.enabled = true ∧ s.cpu.pc ∈ s.debugger.breakpoints) →
      ∀ k, s.step.2.stepped k = s.step.2 ∧ (s.step.2.stepped k).step.1 = .error f) ∧
    (s.debugger.enabled = true → s.cpu.pc ∈ s.debugger.breakpoints →
      ∀ k, s.step.2.stepped (2 * k) = s.step.2.noting k ∧
        (s.step.2.stepped (2 * k)).step.1 = .ok .paused ∧
        (s.step.2.stepped (2 * k + 1)).architecture = s.architecture ∧
        (s.step.2.stepped (2 * k + 1)).step.1 = .error f) := by
  have hstuck := Stuck.of_step hs.settled hfault
  obtain ⟨hhalted, hpauses, hattempt⟩ := fault_of_step hfault
  have hafter : s.step.2 = { s with
      phase := .faulted, debugger := { s.debugger with resume := none } } := by
    rw [step_of_fault hhalted hpauses hattempt, released,
      Debugger.release_of_settled hs.settled]
  rw [hafter] at hstuck ⊢
  refine ⟨rfl, pc_of_attempt hattempt, ?_, ?_, ?_⟩
  · intro word field hfield
    have hlt := Layout.toNat_read_lt hfield word
    exact ⟨s.cpu.reg?_eq hlt, s.cpu.setReg?_eq hlt⟩
  · intro hwatch k
    rw [hstuck.stepped_of_unwatched hwatch, hstuck.step_of_unwatched hwatch]
    exact ⟨rfl, rfl⟩
  · intro henabled hmem k
    obtain ⟨hpause, hfail⟩ := hstuck.step_noting henabled hmem k
    rw [stepped_succ, hstuck.stepped_of_watched henabled hmem, hpause]
    refine ⟨rfl, rfl, ?_, ?_⟩
    · change (Machine.noting k _).held.architecture = s.architecture
      rw [architecture_held, architecture_noting, ← hafter, step_of_fault hhalted hpauses hattempt]
      exact architecture_released s
    · exact congrArg Prod.fst hfail

/-- A machine about to look for an instruction behind the end of memory, at a
breakpoint at which it has just paused. -/
def astray : Machine QueueConsole :=
  (Machine.new {} {}).after
    [.setDebugger true, .addBreakpoint 0x10000, .setPc 0x10000, .step]

/-- The fault that it meets there. -/
def astrayFault : Fault := ⟨0x10000, .fetch (.accessViolation 0x10000 4 .fetching)⟩

/-- There the fault and the pause alternate. -/
theorem fault_atomic_astray :
    astray.Reachable ∧ astray.step.1 = .error astrayFault ∧
      (∀ k, (astray.step.2.stepped (2 * k)).step.1 = .ok .paused) ∧
      ∀ k, (astray.step.2.stepped (2 * k + 1)).step.1 = .error astrayFault := by
  have hreachable : astray.Reachable := ⟨_, _, _, rfl⟩
  have hfault : astray.step.1 = .error astrayFault := rfl
  obtain ⟨-, -, -, -, hwatched⟩ := fault_atomic hreachable hfault
  have hrounds := hwatched (by decide) (by decide)
  exact ⟨hreachable, hfault, fun k => (hrounds k).2.1, fun k => (hrounds k).2.2.2⟩

end Machine

end SandboxCpu
