import SandboxCpu.Proofs.Machine.Counters

/-!
# Calls of `step`, one after the other

`Machine.steps` calls `step` up to a number of times, and `Machine.run` until a call
does not let it go on.  Both look at nothing but the answer of the last call, so that
steps can be taken in one go or in several (`steps_add_of_ongoing`), and more of them
than it takes to get to an end make no difference (`steps_add_of_ended`).

A run ends where some number of steps does, and says in its own words what they say
(`ending`).  It need not end at all.  The loop as such is `Returns`, which knows no
bound on the calls, and `Machine.run` is this loop for as long as its bound allows
(`returns_iff_run`).

## Main results

* `run_eq`: a run is as many steps, and their answer told as that of a run.
* `Returns.iff_of_ended`: what a run returns, wherever steps come to an end.
* `steps_and_run_iterate_step`: the laws of both.
-/

namespace SandboxCpu.Machine

variable {κ : Type} [Console κ] {m n last : Machine κ} {answer : Except Fault RunOutcome}

/-! ## Steps -/

/-- A call of `step` lets execution go on, or it does not. -/
theorem ongoing_or_ended (m : Machine κ) :
    (∃ next, m.step = (.ok .ongoing, next)) ∨ m.step.1 ≠ .ok .ongoing := by
  by_cases h : m.step.1 = .ok .ongoing
  · exact .inl ⟨m.step.2, Prod.ext h rfl⟩
  · exact .inr h

/-- A call that lets execution go on is followed by the others. -/
theorem steps_succ_of_ongoing (h : m.step = (.ok .ongoing, n)) (c : Nat) :
    steps (c + 1) m = steps c n := by
  rw [steps, h]

/-- A call that does not is the last. -/
theorem steps_succ_of_ended (h : m.step.1 ≠ .ok .ongoing) (c : Nat) :
    steps (c + 1) m = m.step := by
  rw [steps]
  split
  · rename_i next hstep
    exact absurd (congrArg Prod.fst hstep) h
  · rfl

theorem steps_one (m : Machine κ) : steps 1 m = m.step := by
  obtain ⟨next, hstep⟩ | hended := m.ongoing_or_ended
  · rw [steps_succ_of_ongoing hstep, steps, hstep]
  · exact steps_succ_of_ended hended 0

/-- Steps that can go on are followed by further steps. -/
theorem steps_add_of_ongoing {i : Nat} (j : Nat) : ∀ {m : Machine κ},
    (steps i m).1 = .ok .ongoing → steps (i + j) m = steps j (steps i m).2 := by
  induction i with
  | zero =>
      intro m _
      rw [Nat.zero_add]
      rfl
  | succ i ih =>
      intro m h
      obtain ⟨next, hstep⟩ | hended := m.ongoing_or_ended
      · rw [steps_succ_of_ongoing hstep] at h ⊢
        rw [Nat.add_right_comm, steps_succ_of_ongoing hstep]
        exact ih h
      · rw [steps_succ_of_ended hended] at h
        exact absurd h hended

/-- Steps that came to an end are not followed by any. -/
theorem steps_add_of_ended {i : Nat} (j : Nat) : ∀ {m : Machine κ},
    (steps i m).1 ≠ .ok .ongoing → steps (i + j) m = steps i m := by
  induction i with
  | zero =>
      intro m h
      exact absurd rfl h
  | succ i ih =>
      intro m h
      rw [Nat.add_right_comm]
      obtain ⟨next, hstep⟩ | hended := m.ongoing_or_ended
      · rw [steps_succ_of_ongoing hstep] at h
        rw [steps_succ_of_ongoing hstep, steps_succ_of_ongoing hstep]
        exact ih h
      · rw [steps_succ_of_ended hended, steps_succ_of_ended hended]

/-- However many steps it takes to come to an end, the end is the same. -/
theorem steps_eq_of_ended {i j : Nat} (hi : (steps i m).1 ≠ .ok .ongoing)
    (hj : (steps j m).1 ≠ .ok .ongoing) : steps i m = steps j m := by
  rw [← steps_add_of_ended j hi, Nat.add_comm, steps_add_of_ended i hj]

/-! ## Runs -/

/-- How a run ends at a call of `step`, told by the answer of the call and by the
machine that it left.  There is no end if execution can go on. -/
def ending (call : Except Fault StepOutcome × Machine κ) : Option (Except Fault RunOutcome) :=
  match call.1 with
  | .ok .ongoing => none
  | .ok .halted => some (.ok (.exited call.2.exitCode))
  | .ok .paused => some (.ok (.paused call.2.cpu.pc))
  | .error fault => some (.error fault)

omit [Console κ] in
theorem exists_ending_iff {call : Except Fault StepOutcome × Machine κ} :
    (∃ answer, ending call = some answer) ↔ call.1 ≠ .ok .ongoing := by
  rcases call with ⟨_ | _ | _ | _, n⟩ <;> simp [ending]

/-- A run takes as many steps as its bound allows, and tells how they ended. -/
theorem run_eq (bound : Nat) : ∀ m : Machine κ,
    run bound m = (ending (steps bound m), (steps bound m).2) := by
  induction bound with
  | zero => exact fun m => rfl
  | succ bound ih =>
      intro m
      unfold run steps
      rcases m.step with ⟨_ | _ | _ | _, next⟩
      · rfl
      · exact ih next
      · rfl
      · rfl

/-- The loop of a run, without a bound on the calls of `step`: it returns an answer and
leaves a machine. -/
inductive Returns : Machine κ → Except Fault RunOutcome → Machine κ → Prop
  | again {m next last : Machine κ} {answer : Except Fault RunOutcome}
      (hstep : m.step = (.ok .ongoing, next)) (h : Returns next answer last) :
      Returns m answer last
  | ended {m : Machine κ} {answer : Except Fault RunOutcome}
      (hend : ending m.step = some answer) : Returns m answer m.step.2

/-- The loop returns where some number of steps ends. -/
theorem returns_iff_steps :
    Returns m answer last ↔ ∃ c, ending (steps c m) = some answer ∧ (steps c m).2 = last := by
  constructor
  · intro h
    induction h with
    | again hstep _ ih =>
        obtain ⟨c, hend, hlast⟩ := ih
        refine ⟨c + 1, ?_⟩
        rw [steps_succ_of_ongoing hstep]
        exact ⟨hend, hlast⟩
    | @ended m answer hend =>
        refine ⟨1, ?_⟩
        rw [steps_one]
        exact ⟨hend, rfl⟩
  · rintro ⟨c, hend, rfl⟩
    induction c generalizing m with
    | zero => cases hend
    | succ c ih =>
        obtain ⟨next, hstep⟩ | hended := m.ongoing_or_ended
        · rw [steps_succ_of_ongoing hstep] at hend ⊢
          exact .again hstep (ih hend)
        · rw [steps_succ_of_ended hended] at hend ⊢
          exact .ended hend

/-- A bound on the calls stands in the way of a run, and otherwise makes no
difference. -/
theorem returns_iff_run :
    Returns m answer last ↔ ∃ bound, run bound m = (some answer, last) := by
  simp only [returns_iff_steps, run_eq, Prod.mk.injEq]

/-- Wherever steps come to an end, so does a run, and in no other way. -/
theorem Returns.iff_of_ended {c : Nat} (hc : (steps c m).1 ≠ .ok .ongoing) :
    Returns m answer last ↔ ending (steps c m) = some answer ∧ (steps c m).2 = last := by
  rw [returns_iff_steps]
  constructor
  · rintro ⟨c', hend, hlast⟩
    rw [steps_eq_of_ended hc (exists_ending_iff.mp ⟨answer, hend⟩)]
    exact ⟨hend, hlast⟩
  · exact fun h => ⟨c, h⟩

/-- A run returns exactly when some number of steps comes to an end. -/
theorem exists_returns_iff :
    (∃ answer last, Returns m answer last) ↔ ∃ c, (steps c m).1 ≠ .ok .ongoing := by
  constructor
  · rintro ⟨answer, last, h⟩
    obtain ⟨c, hend, -⟩ := returns_iff_steps.mp h
    exact ⟨c, exists_ending_iff.mp ⟨answer, hend⟩⟩
  · rintro ⟨c, hc⟩
    obtain ⟨answer, hend⟩ := exists_ending_iff.mpr hc
    exact ⟨answer, _, returns_iff_steps.mpr ⟨c, hend, rfl⟩⟩

/-! ## Single steps -/

/-- With single steps no call of `step` lets execution go on. -/
theorem step_ne_ongoing (h : m.debugger.isSingleStep = true) : m.step.1 ≠ .ok .ongoing := by
  cases m.situation with
  | stopped hhalted =>
      rw [step_of_halted hhalted]
      nofun
  | held hpauses =>
      rw [step_of_pauses hpauses]
      nofun
  | failed hhalted hpauses hattempt =>
      rw [step_of_fault hhalted hpauses hattempt]
      nofun
  | done hhalted hpauses hattempt =>
      rw [step_of_success hhalted hpauses hattempt, retire_fst, isSingleStep_attempt hattempt, h]
      split <;> nofun

/-- So a run makes one call, and executes one instruction at most. -/
theorem tally_run_le_one (h : m.debugger.isSingleStep = true) (bound : Nat) :
    (tally (m.calls (.run bound))).instructions ≤ 1 := by
  cases bound with
  | zero => exact Nat.zero_le 1
  | succ bound =>
      have hone : m.calls (.run (bound + 1)) = [.step m] := by
        rw [calls, stepCalls]
        split
        · rename_i next hstep
          exact absurd (congrArg Prod.fst hstep) (step_ne_ongoing h)
        · rfl
      rw [hone]
      show 0 + m.executes ≤ 1
      rw [executes]
      split <;> decide

/-- And it always returns after that call. -/
theorem exists_returns_of_isSingleStep (h : m.debugger.isSingleStep = true) :
    ∃ answer, Returns m answer m.step.2 := by
  obtain ⟨answer, hend⟩ := exists_ending_iff.mpr (step_ne_ongoing h)
  exact ⟨answer, .ended hend⟩

/-! ## Main result -/

/-- **Steps and runs are calls of `step`, one after the other.**  No step does nothing and
lets execution go on, and one step is a call.  Steps after which execution can go on are
followed by further steps as if these were taken by themselves.  Steps that came to an
end, because the guest stopped, the debugger paused or an instruction failed, are not
followed by any.

A run returns exactly when some number of steps comes to an end.  It then leaves the
machine that these leave, and tells the exit code or the program counter of that machine,
or the fault, as their answer has it.  A bound stands in its way and is otherwise of no
account.

With the debugger on and single steps a run always returns after one call, with one
instruction executed at most. -/
theorem steps_and_run_iterate_step (m : Machine κ) :
    (steps 0 m = (.ok .ongoing, m) ∧ steps 1 m = m.step) ∧
    (∀ i j, (steps i m).1 = .ok .ongoing → steps (i + j) m = steps j (steps i m).2) ∧
    (∀ i j, (steps i m).1 ≠ .ok .ongoing → steps (i + j) m = steps i m) ∧
    ((∃ answer last, Returns m answer last) ↔ ∃ c, (steps c m).1 ≠ .ok .ongoing) ∧
    (∀ c, (steps c m).1 ≠ .ok .ongoing → ∀ answer last,
      Returns m answer last ↔ ending (steps c m) = some answer ∧ (steps c m).2 = last) ∧
    (∀ answer last, Returns m answer last ↔ ∃ bound, run bound m = (some answer, last)) ∧
    (m.debugger.enabled = true → m.debugger.singleStep = true →
      (∃ answer, Returns m answer m.step.2) ∧
        ∀ bound, (tally (m.calls (.run bound))).instructions ≤ 1) := by
  refine ⟨⟨rfl, steps_one m⟩, fun i j => steps_add_of_ongoing j, fun i j => steps_add_of_ended j,
    exists_returns_iff, fun c hc answer last => Returns.iff_of_ended hc,
    fun answer last => returns_iff_run, fun henabled hsingle => ?_⟩
  have h : m.debugger.isSingleStep = true := by
    rw [Debugger.isSingleStep, henabled, hsingle]
    rfl
  exact ⟨exists_returns_of_isSingleStep h, tally_run_le_one h⟩

/-- A machine with two instructions, the second of which stops it. -/
def stopping : Machine QueueConsole :=
  (Machine.new {} {}).after [.load 0 (LittleEndian.image [0x00000000, 0x01000000])]

/-- One step lets it go on, a second stops it and more are not taken; a run returns its exit
code, and with single steps it executes one of the two instructions. -/
theorem steps_and_run_iterate_step_stopping :
    steps (1 + 1) stopping = steps 1 (steps 1 stopping).2 ∧
    steps (2 + 3) stopping = steps 2 stopping ∧
    Returns stopping (.ok (.exited 0)) (steps 2 stopping).2 ∧
    (tally ((stopping.after [.setDebugger true, .setSingleStep true]).calls (.run 2))).instructions
      ≤ 1 := by
  have hsteps : (steps 1 stopping).1 = .ok .ongoing ∧ (steps 2 stopping).1 = .ok .halted ∧
      (steps 2 stopping).2.exitCode = 0 := by
    decide +kernel
  obtain ⟨hone, htwo, hcode⟩ := hsteps
  have hended : (steps 2 stopping).1 ≠ .ok .ongoing := by
    rw [htwo]
    nofun
  have hending : ending (steps 2 stopping) = some (.ok (.exited 0)) := by
    rw [ending, htwo, hcode]
  obtain ⟨-, hgoes, hends, -, hreturns, -⟩ := steps_and_run_iterate_step stopping
  obtain ⟨-, -, -, -, -, -, hsingle⟩ :=
    steps_and_run_iterate_step (stopping.after [.setDebugger true, .setSingleStep true])
  exact ⟨hgoes 1 1 hone, hends 2 3 hended, (hreturns 2 hended _ _).mpr ⟨hending, rfl⟩,
    (hsingle (by decide +kernel) (by decide +kernel)).2 2⟩

end SandboxCpu.Machine
