import SandboxCpu.Proofs.Machine.Transparency

/-!
# Runs of a machine without a debugger

What a machine does whose debugger is off is said by three predicates.  It goes
on for `k` calls (`GoesOn`), or it does so and then the guest stops (`Halts`) or
an instruction fails (`Fails`).  Each of these `k` calls executes one
instruction, and so does the call with which the guest stops
(`GoesOn.instructions_stepped`, `Halts.instructions`), so `k` counts instructions
as well as calls.  No machine stops going on in two places (`Stops.unique`).

The second half follows a machine under a debugger through `Machine.steps`.
Whatever ends the steps, the plain twin has gone on for some number `k` of calls
by then, and only a breakpoint pause leaves `k` at zero (`steps_course`).
-/

namespace SandboxCpu

namespace Machine

variable {κ : Type}

/-! ## Stopping -/

theorem halted_of_executeRegister {m n : Machine κ} {pc : UInt32} {op : RegisterOp}
    {r : RegisterArgs} (h : m.executeRegister pc op r = .ok n) :
    n.cpu.halted = m.cpu.halted := by
  cases op
  case push =>
    simp only [executeRegister, pushWord] at h
    cases hwrite : m.memory.writeWord (m.cpu.sp - 4) (m.cpu.reg r.rs1) .writing with
    | error e => simp only [hwrite] at h; cases h
    | ok memory =>
        simp only [hwrite] at h
        cases h
        rfl
  all_goals
    simp only [executeRegister] at h
  case div | mod | load | loadb | pop | store | storeb =>
    split at h
    · cases h
    · cases h
      rfl
  all_goals
    cases h
    rfl

variable [Console κ] {m n p : Machine κ}

/-- An instruction that says where to go on has not stopped the guest. -/
theorem halted_of_execute {pc : UInt32} {i : Instruction} {flow : Flow}
    (hhalted : m.cpu.halted = false) (h : m.execute pc i = .ok (flow, n))
    (hflow : flow ≠ .halt) : n.cpu.halted = false := by
  cases i with
  | bare op =>
      cases op with
      | nop =>
          cases h
          exact hhalted
      | halt =>
          cases h
          exact absurd rfl hflow
      | ret =>
          simp only [execute, executeBare] at h
          split at h
          · cases h
          · cases h
            exact hhalted
      | syscall =>
          cases h
          cases hcall : m.callHost.cpu.halted with
          | true => exact absurd (if_pos hcall) hflow
          | false => rfl
  | register op args =>
      simp only [execute] at h
      cases hop : m.executeRegister pc op args with
      | error e => rw [hop] at h; cases h
      | ok n' =>
          rw [hop] at h
          cases h
          rw [halted_of_executeRegister hop, hhalted]
  | immediate op args =>
      cases h
      cases op <;> exact hhalted
  | jump op args =>
      cases op
      case call =>
        simp only [execute, executeJump, pushWord] at h
        cases hwrite : m.memory.writeWord (m.cpu.sp - 4) (pc + 4) .writing with
        | error e => simp only [hwrite] at h; cases h
        | ok memory =>
            simp only [hwrite] at h
            cases h
            exact hhalted
      all_goals
        cases h
        exact hhalted

omit [Console κ] in
/-- What follows a success counts it. -/
theorem instructions_retire (m : Machine κ) (pc word : UInt32) (flow : Flow) :
    (m.retire pc word flow).2.debugger.instructions = m.debugger.instructions + 1 ∧
      (m.retire pc word flow).2.cpu.halted = m.cpu.halted := by
  unfold retire
  dsimp only
  split
  · exact ⟨(Debugger.counters_record _ _).1, rfl⟩
  · split
    · exact ⟨(Debugger.counters_record _ _).1, rfl⟩
    · exact ⟨rfl, rfl⟩

/-- A call that finds the guest running and does not pause executes one
instruction, and leaves the guest running unless it says otherwise. -/
theorem instructions_step {outcome : StepOutcome} (hhalted : m.cpu.halted = false)
    (h : m.step.1 = .ok outcome) (hpause : outcome ≠ .paused) :
    m.step.2.debugger.instructions = m.debugger.instructions + 1 ∧
      (outcome ≠ .halted → m.step.2.cpu.halted = false) := by
  cases m.situation with
  | stopped hstopped =>
      rw [hhalted] at hstopped
      cases hstopped
  | held hholds =>
      rw [step_of_pauses hholds] at h
      cases h
      exact absurd rfl hpause
  | failed _ hpauses hattempt =>
      rw [step_of_fault hhalted hpauses hattempt] at h
      cases h
  | @done word flow n _ hpauses hattempt =>
      rw [step_of_success hhalted hpauses hattempt] at h ⊢
      obtain ⟨hcount, hkept⟩ := instructions_retire n m.cpu.pc word flow
      constructor
      · change (n.retire _ _ _).2.debugger.instructions = _
        rw [hcount, (kept_attempt hattempt).2.2]
        exact congrArg (· + 1) m.debugger.counters_release.1
      · intro houtcome
        change (n.retire _ _ _).2.cpu.halted = false
        rw [hkept]
        obtain ⟨-, i, -, hexecute⟩ := of_attempt hattempt
        have hrunning : m.released.cpu.halted = false := hhalted
        apply halted_of_execute hrunning hexecute
        intro hflow
        cases h
        rw [retire_fst, if_pos hflow] at houtcome
        exact houtcome rfl

/-! ## Going on, stopping and failing -/

/-- The first `k` calls let execution go on. -/
def GoesOn (k : Nat) (m : Machine κ) : Prop := ∀ j < k, (m.stepped j).step.1 = .ok .ongoing

/-- After going on for `k` calls the guest stops with an exit code. -/
structure Halts (k : Nat) (code : Int32) (m : Machine κ) : Prop where
  goesOn : m.GoesOn k
  step : (m.stepped k).step.1 = .ok .halted
  exitCode : (m.stepped (k + 1)).exitCode = code

/-- After going on for `k` calls an instruction fails. -/
structure Fails (k : Nat) (f : Fault) (m : Machine κ) : Prop where
  goesOn : m.GoesOn k
  step : (m.stepped k).step.1 = .error f

namespace GoesOn

theorem zero (m : Machine κ) : m.GoesOn 0 := fun j hj => absurd hj (Nat.not_lt_zero j)

theorem succ {k : Nat} (hstep : m.step.1 = .ok .ongoing) (h : m.step.2.GoesOn k) :
    m.GoesOn (k + 1) := by
  intro j hj
  cases j with
  | zero => exact hstep
  | succ j => exact h j (by omega)

/-- Going on for a while, and then for another. -/
theorem add {i j : Nat} (hi : m.GoesOn i) (hj : (m.stepped i).GoesOn j) : m.GoesOn (i + j) := by
  intro l hl
  by_cases hlt : l < i
  · exact hi l hlt
  · obtain ⟨d, rfl⟩ : ∃ d, l = i + d := ⟨l - i, by omega⟩
    rw [stepped_add]
    exact hj d (by omega)

/-- A machine that goes on executes an instruction in each call. -/
theorem instructions_stepped {k : Nat} (h : m.GoesOn k) (hhalted : m.cpu.halted = false) :
    (m.stepped k).debugger.instructions = m.debugger.instructions + UInt64.ofNat k ∧
      (m.stepped k).cpu.halted = false := by
  induction k with
  | zero => exact ⟨(UInt64.add_zero _).symm, hhalted⟩
  | succ k ih =>
      obtain ⟨hcount, hrunning⟩ := ih fun j hj => h j (by omega)
      obtain ⟨hone, hnext⟩ := instructions_step hrunning (h k (by omega)) nofun
      rw [stepped_succ]
      refine ⟨?_, hnext nofun⟩
      rw [hone, hcount, UInt64.ofNat_add, UInt64.add_assoc]
      rfl

end GoesOn

/-- After going on for `k` calls the machine does not go on. -/
structure Stops (k : Nat) (m : Machine κ) : Prop where
  goesOn : m.GoesOn k
  step : (m.stepped k).step.1 ≠ .ok .ongoing

theorem Halts.stops {k : Nat} {code : Int32} (h : m.Halts k code) : m.Stops k := by
  refine ⟨h.goesOn, ?_⟩
  rw [h.step]
  nofun

theorem Fails.stops {k : Nat} {f : Fault} (h : m.Fails k f) : m.Stops k := by
  refine ⟨h.goesOn, ?_⟩
  rw [h.step]
  nofun

theorem Stops.not_goesOn {j k : Nat} (h : m.Stops j) (hjk : j < k) : ¬m.GoesOn k :=
  fun hgo => h.step (hgo j hjk)

/-- A machine stops in one place only. -/
theorem Stops.unique {j k : Nat} (hj : m.Stops j) (hk : m.Stops k) : j = k := by
  apply Nat.le_antisymm
  · exact Nat.le_of_not_lt fun hlt => hk.not_goesOn hlt hj.goesOn
  · exact Nat.le_of_not_lt fun hlt => hj.not_goesOn hlt hk.goesOn

/-- The call with which the guest stops executes an instruction too. -/
theorem Halts.instructions {k : Nat} {code : Int32} (h : m.Halts k code)
    (hhalted : m.cpu.halted = false) :
    (m.stepped (k + 1)).debugger.instructions =
      m.debugger.instructions + UInt64.ofNat (k + 1) := by
  obtain ⟨hcount, hrunning⟩ := h.goesOn.instructions_stepped hhalted
  rw [stepped_succ, (instructions_step hrunning h.step nofun).1, hcount, UInt64.ofNat_add,
    UInt64.add_assoc]
  rfl

/-! ## A debugged machine, followed by its twin -/

/-- What several calls come to, seen from the plain twin: it has gone on for `k`
calls, and then either does what ended the calls or has only been overtaken by a
pause. -/
theorem steps_course (c : Nat) : ∀ {v p : Machine κ}, Follows v p →
    ∃ k, k ≤ c ∧ p.GoesOn k ∧
      match (steps c v).1 with
      | .ok .ongoing => k = c ∧ Follows (steps c v).2 (p.stepped k)
      | .ok .paused => Follows (steps c v).2 (p.stepped k) ∧
          (k = 0 → v.pauses = true ∧ (steps c v).2.pauses = false)
      | .ok .halted => k < c ∧ (p.stepped k).step.1 = .ok .halted ∧
          Follows (steps c v).2 (p.stepped (k + 1))
      | .error f => k < c ∧ (p.stepped k).step.1 = .error f := by
  induction c with
  | zero =>
      intro v p h
      exact ⟨0, Nat.le_refl 0, .zero p, rfl, h⟩
  | succ c ih =>
      intro v p h
      cases hpauses : v.pauses with
      | true =>
          have hsteps : steps (c + 1) v = (.ok .paused, v.held) := by
            unfold steps
            rw [step_of_pauses hpauses]
          rw [hsteps]
          have hheld : Follows v.held p := ⟨h.same.trans (architecture_held v).symm, h.off⟩
          exact ⟨0, Nat.zero_le _, .zero p, hheld, fun _ => ⟨rfl, pauses_held v⟩⟩
      | false =>
          obtain ⟨hanswer, hnext⟩ := h.step hpauses
          unfold steps
          generalize v.step = r at hanswer hnext
          obtain ⟨answer, next⟩ := r
          -- What the twin answers decides whether it is one call or none ahead.
          cases answer with
          | error f => exact ⟨0, Nat.zero_le _, .zero p, Nat.succ_pos c, hanswer⟩
          | ok outcome =>
              cases outcome with
              | halted => exact ⟨0, Nat.zero_le _, .zero p, Nat.succ_pos c, hanswer, hnext⟩
              | paused =>
                  have hgo : p.GoesOn 1 := .succ hanswer (.zero _)
                  exact ⟨1, by omega, hgo, hnext, fun h1 => absurd h1 Nat.one_ne_zero⟩
              | ongoing =>
                  obtain ⟨k, hk, hgo, hcourse⟩ := ih hnext
                  refine ⟨k + 1, by omega, .succ hanswer hgo, ?_⟩
                  dsimp only
                  generalize steps c next = last at hcourse ⊢
                  obtain ⟨reply, after⟩ := last
                  cases reply with
                  | error f => exact ⟨by omega, hcourse.2⟩
                  | ok outcome =>
                      cases outcome with
                      | ongoing => exact ⟨by omega, hcourse.2⟩
                      | halted => exact ⟨by omega, hcourse.2⟩
                      | paused => exact ⟨hcourse.1, fun h0 => absurd h0 (Nat.succ_ne_zero k)⟩

end Machine

end SandboxCpu
