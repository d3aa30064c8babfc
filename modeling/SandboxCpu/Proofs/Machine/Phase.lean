import SandboxCpu.Proofs.Machine.Chronicle
import SandboxCpu.Proofs.Machine.Conformance
import SandboxCpu.Proofs.Machine.Plain

/-!
# What a machine says of its last step

A machine keeps in three places how far its guest has got: in the halted bit, in
the phase and in the exit code.  Different operations write them, and here it is
shown that they never disagree (`Accounts`).  The phase is the answer of the last
call of `step` since the machine was made or reset (`lastAnswer`), a guest has
stopped exactly when the phase says so, and only a guest that has stopped has an
exit code other than zero.

A guest that has stopped stays so until a reset.  Whatever else the host does,
each further step finds the machine as it was and leaves it so
(`Stopped.step`).

## Main result

* `phase_records` — all of this, for every history of a new machine.
-/

namespace SandboxCpu

/-- The phase that an answer leaves, or that no answer leaves. -/
def Phase.recording : Option (Except Fault StepOutcome) → Phase
  | none => idle
  | some (.ok .ongoing) => idle
  | some (.ok .paused) => paused
  | some (.ok .halted) => ended
  | some (.error _) => faulted

theorem Phase.recording_eq_ended_iff {answer : Except Fault StepOutcome} :
    recording (some answer) = ended ↔ answer = .ok .halted := by
  rcases answer with _ | _ | _ | _ <;> simp [recording]

section Answers

variable {κ : Type} [Console κ]

/-- The answer of the last call of `step` since the machine was made or reset. -/
def lastAnswer (acts : List (Act κ)) : Option (Except Fault StepOutcome) :=
  acts.foldl (fun last act =>
    match act with
    | .step on => some on.step.1
    | .other .reset => none
    | .other _ => last) none

theorem lastAnswer_step (acts : List (Act κ)) (m : Machine κ) :
    lastAnswer (acts ++ [.step m]) = some m.step.1 := by
  rw [lastAnswer, List.foldl_append]
  rfl

theorem lastAnswer_reset (acts : List (Act κ)) : lastAnswer (acts ++ [.other .reset]) = none := by
  rw [lastAnswer, List.foldl_append]
  rfl

theorem lastAnswer_other (acts : List (Act κ)) {op : Operation κ} (h : op ≠ .reset) :
    lastAnswer (acts ++ [.other op]) = lastAnswer acts := by
  rw [lastAnswer, List.foldl_append]
  cases op with
  | reset => exact absurd rfl h
  | _ => rfl

end Answers

namespace Machine

variable {κ : Type} [Console κ] {m n : Machine κ}

/-! ## One call of `step` -/

/-- The phase after a call of `step` records its answer. -/
theorem phase_step (m : Machine κ) : m.step.2.phase = .recording (some m.step.1) := by
  cases m.situation with
  | stopped hhalted => rw [step_of_halted hhalted]; rfl
  | held hpauses => rw [step_of_pauses hpauses]; rfl
  | failed hhalted hpauses hattempt => rw [step_of_fault hhalted hpauses hattempt]; rfl
  | @done word flow n hhalted hpauses hattempt =>
      rw [step_of_success hhalted hpauses hattempt]
      cases (n.retire m.cpu.pc word flow).1 <;> rfl

omit [Console κ] in
theorem decode_of_decodeAt {pc word : UInt32} {i : Instruction} (h : decodeAt pc word = .ok i) :
    Instruction.decode word = .ok i := by
  unfold decodeAt at h
  split at h
  · cases h
    assumption
  · cases h

/-- An instruction stops the guest exactly when execution goes nowhere after it. -/
theorem halted_attempt {word : UInt32} {flow : Flow} (hhalted : m.cpu.halted = false)
    (h : m.attempt m.cpu.pc = .ok (word, flow, n)) : n.cpu.halted = true ↔ flow = .halt := by
  obtain ⟨-, i, hdecode, hexecute⟩ := of_attempt h
  have hconforms := Isa.execute_conforms hhalted word i.opcode
  rw [← (Instruction.applied_of_decode (decode_of_decodeAt hdecode)).2, hexecute] at hconforms
  obtain ⟨f, -, hfails⟩ | ⟨e, r, -, hr, hexecuted⟩ := hconforms.elim
  · cases hfails
  · cases hr
    have hstops := hexecuted.stops
    rw [← Bool.false_or e.halts, ← hhalted, ← hexecuted.halted] at hstops
    exact hstops.symm

/-- The guest has stopped after a call of `step` exactly when the call says so. -/
theorem halted_step (m : Machine κ) : m.step.2.cpu.halted = true ↔ m.step.1 = .ok .halted := by
  cases m.situation with
  | stopped hhalted =>
      rw [step_of_halted hhalted]
      exact ⟨fun _ => rfl, fun _ => hhalted⟩
  | held hpauses =>
      rw [step_of_pauses hpauses]
      have hrunning : m.held.cpu.halted = false := (pauses_iff.mp hpauses).1
      simp only [hrunning, Bool.false_eq_true, Except.ok.injEq, reduceCtorEq]
  | failed hhalted hpauses hattempt =>
      rw [step_of_fault hhalted hpauses hattempt]
      have hrunning : m.released.cpu.halted = false := hhalted
      simp only [hrunning, Bool.false_eq_true, reduceCtorEq]
  | @done word flow n hhalted hpauses hattempt =>
      rw [step_of_success hhalted hpauses hattempt]
      change (n.retire m.cpu.pc word flow).2.cpu.halted = true ↔ _
      have hrunning : m.released.cpu.halted = false := hhalted
      rw [(instructions_retire n m.cpu.pc word flow).2, halted_attempt hrunning hattempt,
        retire_fst]
      split
      · simp only [*]
      · split <;> simp only [*, Except.ok.injEq, reduceCtorEq]

/-! ## The exit code -/

/-- A call to the host leaves the exit code, or stops the guest. -/
theorem exitCode_serve (m : Machine κ) (call : SystemCall) :
    (m.serve call).2.exitCode = m.exitCode ∨ (m.serve call).2.cpu.halted = true := by
  have hserved := served m call
  generalize (m.serve call).2 = n at hserved ⊢
  cases hserved with
  | exits => exact .inr rfl
  | asks | stores | sleeps | allocates | idles => exact .inl rfl

/-- So does every instruction. -/
theorem exitCode_execute {pc : UInt32} {i : Instruction} {flow : Flow}
    (h : m.execute pc i = .ok (flow, n)) : n.exitCode = m.exitCode ∨ n.cpu.halted = true := by
  by_cases hi : i = .bare .syscall
  · subst hi
    cases h
    exact exitCode_serve { m with debugger := m.debugger.record (.syscall m.systemCall.number) }
      m.systemCall
  · rw [(Local.of_execute h hi).rest]
    exact .inl rfl

/-- And so does a call of `step`. -/
theorem exitCode_step (m : Machine κ) :
    m.step.2.exitCode = m.exitCode ∨ m.step.2.cpu.halted = true := by
  cases m.situation with
  | stopped hhalted => rw [step_of_halted hhalted]; exact .inl rfl
  | held hpauses => rw [step_of_pauses hpauses]; exact .inl rfl
  | failed hhalted hpauses hattempt =>
      rw [step_of_fault hhalted hpauses hattempt]
      exact .inl rfl
  | @done word flow n hhalted hpauses hattempt =>
      have hretired := architecture_step hhalted hpauses hattempt
      have hexit : m.step.2.exitCode = n.exitCode := congrArg Architecture.exitCode hretired
      have hstops : m.step.2.cpu.halted = n.cpu.halted :=
        congrArg (fun a => a.cpu.halted) hretired
      obtain ⟨-, i, -, hexecute⟩ := of_attempt hattempt
      rw [hexit, hstops]
      exact exitCode_execute (m := m.released) hexecute

/-! ## The account -/

/-- What a machine says of how far its guest has got agrees with what it was asked
and answered. -/
structure Accounts (acts : List (Act κ)) (m : Machine κ) : Prop where
  phase : m.phase = .recording (lastAnswer acts)
  halted : m.cpu.halted = true ↔ m.phase = .ended
  exitCode : m.exitCode ≠ 0 → m.cpu.halted = true

namespace Accounts

variable {acts : List (Act κ)}

theorem new (config : Config) (console : κ) : Accounts [] (Machine.new config console) where
  phase := rfl
  halted := ⟨nofun, nofun⟩
  exitCode h := absurd rfl h

theorem step (h : Accounts acts m) : Accounts (acts ++ [.step m]) m.step.2 where
  phase := by rw [lastAnswer_step, phase_step]
  halted := by rw [halted_step, phase_step, Phase.recording_eq_ended_iff]
  exitCode hexit := by
    obtain hsame | hhalted := exitCode_step m
    · rw [hsame] at hexit
      rw [step_of_halted (h.exitCode hexit)]
      exact h.exitCode hexit
    · exact hhalted

theorem other (h : Accounts acts m) {op : Operation κ} (hop : op.isStepping = false) :
    Accounts (acts ++ [.other op]) (m.perform op).2 := by
  by_cases hreset : op = .reset
  · subst hreset
    exact ⟨by rw [lastAnswer_reset]; rfl, ⟨nofun, nofun⟩, fun h => absurd rfl h⟩
  · have hprogress := progress_perform (m := m) hop hreset
    simp only [progress, Progress.mk.injEq] at hprogress
    obtain ⟨hhalted, hphase, hexit⟩ := hprogress
    refine ⟨?_, ?_, ?_⟩
    · rw [hphase, lastAnswer_other acts hreset, h.phase]
    · rw [hphase, hhalted, h.halted]
    · rw [hexit, hhalted]
      exact h.exitCode

end Accounts

/-! ## Stopped machines -/

/-- The guest has stopped, and the phase says so. -/
structure Stopped (m : Machine κ) : Prop where
  halted : m.cpu.halted = true
  phase : m.phase = .ended

namespace Stopped

theorem step (h : m.Stopped) : m.step = (.ok .halted, m) := by
  rw [step_of_halted h.halted, ← h.phase]

theorem steps (h : m.Stopped) {k : Nat} (hk : 1 ≤ k) : Machine.steps k m = (.ok .halted, m) := by
  obtain ⟨k, rfl⟩ : ∃ j, k = j + 1 := ⟨k - 1, by omega⟩
  rw [Machine.steps, h.step]

theorem run (h : m.Stopped) {bound : Nat} (hbound : 1 ≤ bound) :
    Machine.run bound m = (some (.ok (.exited m.exitCode)), m) := by
  obtain ⟨k, rfl⟩ : ∃ j, bound = j + 1 := ⟨bound - 1, by omega⟩
  rw [Machine.run, h.step]

/-- Nothing but a reset changes how far a stopped guest has got. -/
theorem progress_perform (h : m.Stopped) {op : Operation κ} (hreset : op ≠ .reset) :
    (m.perform op).2.progress = m.progress := by
  cases hop : op.isStepping with
  | false => exact Machine.progress_perform hop hreset
  | true =>
      cases op
      case step =>
        change m.step.2.progress = _
        rw [h.step]
      case steps k =>
        change (Machine.steps k m).2.progress = _
        cases k with
        | zero => rfl
        | succ k => rw [h.steps (Nat.succ_le_succ (Nat.zero_le k))]
      case run bound =>
        change (Machine.run bound m).2.progress = _
        cases bound with
        | zero => rfl
        | succ k => rw [h.run (Nat.succ_le_succ (Nat.zero_le k))]
      all_goals cases hop

omit [Console κ] in
theorem of_progress (h : m.Stopped) (hprogress : n.progress = m.progress) : n.Stopped :=
  ⟨(congrArg Progress.halted hprogress).trans h.halted,
    (congrArg Progress.phase hprogress).trans h.phase⟩

/-- So a history without a reset leaves it where it is. -/
theorem progress_after {later : List (Operation κ)} (hreset : .reset ∉ later) :
    ∀ {m : Machine κ}, m.Stopped → (m.after later).progress = m.progress := by
  induction later with
  | nil => intro m h; rfl
  | cons op later ih =>
      intro m h
      rw [List.mem_cons, not_or] at hreset
      have hprogress := h.progress_perform (Ne.symm hreset.1)
      exact (ih hreset.2 (h.of_progress hprogress)).trans hprogress

end Stopped

/-! ## Main result -/

/-- **The phase records the last step, and a guest that has stopped stays so.**
Take the machine after any history of a new one.  It is in no step.  Its phase is
the answer of the last call of `step` since it was made or reset.  Its guest has
stopped exactly when the phase says so, and otherwise its exit code is zero.

Once the guest has stopped, then after whatever a host does but a reset, it has
stopped with the same exit code; a step, any positive number of steps and a run
say so, and change nothing. -/
theorem phase_records (config : Config) (console : κ) (history : List (Operation κ)) :
    let m := (Machine.new config console).after history
    let acts := (Machine.new config console).chronicle history
    m.phase ≠ .running ∧
    m.phase = .recording (lastAnswer acts) ∧
    (m.cpu.halted = true ↔ m.phase = .ended) ∧
    (m.exitCode ≠ 0 → m.cpu.halted = true) ∧
    (m.cpu.halted = true → ∀ later, .reset ∉ later →
      let n := m.after later
      n.cpu.halted = true ∧ n.exitCode = m.exitCode ∧
      n.step = (.ok .halted, n) ∧
      (∀ k, 1 ≤ k → steps k n = (.ok .halted, n)) ∧
      ∀ bound, 1 ≤ bound → run bound n = (some (.ok (.exited m.exitCode)), n)) := by
  intro m acts
  have h : Accounts acts m :=
    chronicle_keeps (fun _ _ h => h.step) (fun _ _ _ hop h => h.other hop) history []
      (Machine.new config console) (.new config console)
  refine ⟨?_, h.phase, h.halted, h.exitCode, fun hhalted later hreset => ?_⟩
  · rw [h.phase]
    rcases lastAnswer acts with _ | _ | _ | _ | _ <;> nofun
  · have hm : m.Stopped := ⟨hhalted, h.halted.mp hhalted⟩
    have hprogress := hm.progress_after hreset
    have hn : (m.after later).Stopped := hm.of_progress hprogress
    have hexit : (m.after later).exitCode = m.exitCode :=
      congrArg Progress.exitCode hprogress
    refine ⟨hn.halted, hexit, hn.step, fun k hk => hn.steps hk, fun bound hbound => ?_⟩
    rw [hn.run hbound, hexit]

end Machine

end SandboxCpu
