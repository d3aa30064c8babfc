import SandboxCpu.Proofs.Debugger.Breakpoints
import SandboxCpu.Proofs.Machine.Atomicity
import SandboxCpu.Proofs.Machine.Chronicle
import SandboxCpu.Proofs.Machine.Plain

/-!
# Breakpoints hold once

A breakpoint holds execution each time it is met, and never so that execution
could not go on.  Which of the two a call of `step` does is decided by the
machine's past alone: it goes beyond a breakpoint exactly when the call of
`step` before it paused there, and nothing since has ended that pause
(`LetGo`).

The debugger does not look at its past.  It keeps the resume marker, which six
operations set, spend or clear.  `Remembers` says that in every machine the marker
is what the past makes it; it is kept by each call of `step`
(`Remembers.step`) and by each other operation (`Remembers.other`), and so it
holds at every call in every history.

## Main result

* `breakpoint_holds_once` — every call of `step` in every history.
-/

namespace SandboxCpu

section Past

variable {κ : Type} [Console κ]

/-- The call is one of `step` that does nothing but pause at an address: it
answers so, and it counts no instruction. -/
def Act.pausesAt (pc : UInt32) : Act κ → Prop
  | step on =>
    on.cpu.pc = pc ∧ on.step.1 = .ok .paused ∧
      on.step.2.debugger.instructions = on.debugger.instructions
  | other _ => False

omit [Console κ] in
/-- The call ends a pause at an address, if there was one. -/
def Act.endsPause (pc : UInt32) : Act κ → Prop
  | step _ => True
  | other (.removeBreakpoint addr) => addr = pc
  | other .clearBreakpoints => True
  | other (.setDebugger enabled) => enabled = false
  | other .reset => True
  | other _ => False

/-- The last call of `step` paused at an address, and nothing has ended the pause
since. -/
def LetGo (acts : List (Act κ)) (pc : UInt32) : Prop :=
  ∃ before act after, acts = before ++ act :: after ∧ act.pausesAt pc ∧
    ∀ a ∈ after, ¬a.endsPause pc

theorem letGo_nil (pc : UInt32) : ¬LetGo ([] : List (Act κ)) pc := by
  rintro ⟨before, act, after, h, -, -⟩
  exact absurd h (List.append_ne_nil_of_right_ne_nil _ (List.cons_ne_nil _ _)).symm

/-- The last call of all decides, or passes on what was before. -/
theorem letGo_snoc {acts : List (Act κ)} {a : Act κ} {pc : UInt32} :
    LetGo (acts ++ [a]) pc ↔ a.pausesAt pc ∨ (LetGo acts pc ∧ ¬a.endsPause pc) := by
  constructor
  · rintro ⟨before, act, after, h, hpauses, hafter⟩
    obtain ⟨-, -, rfl⟩ | ⟨rest, rfl, rfl⟩ := Machine.snoc_eq_iff.mp h
    · exact .inl hpauses
    · refine .inr ⟨⟨before, act, rest, rfl, hpauses, fun b hb => ?_⟩, ?_⟩
      · exact hafter b (List.mem_append_left _ hb)
      · exact hafter a (List.mem_append_right _ (List.mem_singleton_self a))
  · rintro (hpauses | ⟨⟨before, act, rest, rfl, hpauses, hrest⟩, hends⟩)
    · exact ⟨acts, a, [], rfl, hpauses, fun b hb => absurd hb List.not_mem_nil⟩
    · refine ⟨before, act, rest ++ [a], by rw [List.append_assoc, List.cons_append], hpauses, ?_⟩
      intro b hb
      rcases List.mem_append.mp hb with hb | hb
      · exact hrest b hb
      · rwa [List.mem_singleton.mp hb]

end Past

namespace Machine

variable {κ : Type} [Console κ] {m : Machine κ} {acts : List (Act κ)}

/-! ## One call of `step` -/

/-- A success is counted. -/
theorem instructions_success {n : Machine κ} {word : UInt32} {flow : Flow}
    (hhalted : m.cpu.halted = false) (hpauses : m.pauses = false)
    (hattempt : m.released.attempt m.cpu.pc = .ok (word, flow, n)) :
    m.step.2.debugger.instructions = m.debugger.instructions + 1 := by
  rw [step_of_success hhalted hpauses hattempt]
  change (n.retire _ _ _).2.debugger.instructions = _
  rw [(instructions_retire n _ _ _).1, (kept_attempt hattempt).2.2]
  exact congrArg (· + 1) m.debugger.counters_release.1

/-- A pause that counts no instruction is one at a breakpoint. -/
theorem pausesAt_iff {pc : UInt32} :
    (Act.step m).pausesAt pc ↔ m.pauses = true ∧ m.cpu.pc = pc := by
  rw [Act.pausesAt, and_comm]
  refine and_congr_left fun _ => ?_
  cases m.situation with
  | stopped hhalted =>
      simp [step_of_halted hhalted, pauses, hhalted]
  | held hpauses =>
      rw [step_of_pauses hpauses, hpauses]
      exact ⟨fun _ => rfl, fun _ => ⟨rfl, (m.debugger.counters_hold m.cpu.pc).1⟩⟩
  | failed hhalted hpauses hattempt =>
      simp [step_of_fault hhalted hpauses hattempt, hpauses]
  | done hhalted hpauses hattempt =>
      rw [instructions_success hhalted hpauses hattempt, hpauses]
      simp

/-- The step tries the instruction at the program counter: it fails there, or
counts one instruction more. -/
def Attempts (m : Machine κ) : Prop :=
  (∃ f, m.step.1 = .error f ∧ f.pc = m.cpu.pc) ∨
    ∃ outcome, m.step.1 = .ok outcome ∧
      m.step.2.debugger.instructions = m.debugger.instructions + 1

theorem attempts_of_not_pauses (hhalted : m.cpu.halted = false) (hpauses : m.pauses = false) :
    m.Attempts := by
  cases m.situation with
  | stopped hstopped =>
      rw [hhalted] at hstopped
      cases hstopped
  | held hholds =>
      rw [hpauses] at hholds
      cases hholds
  | failed _ _ hattempt =>
      have hstep := step_of_fault hhalted hpauses hattempt
      exact .inl ⟨_, congrArg Prod.fst hstep, pc_of_attempt hattempt⟩
  | done _ _ hattempt =>
      have hstep := step_of_success hhalted hpauses hattempt
      exact .inr ⟨_, congrArg Prod.fst hstep, instructions_success hhalted hpauses hattempt⟩

/-! ## Other operations -/

/-- The marker of the second debugger is that of the first, unless it was ended,
and it is still at a breakpoint. -/
structure Passed (ends : UInt32 → Prop) (d d' : Debugger) : Prop where
  resume : ∀ pc, d'.resume = some pc ↔ d.resume = some pc ∧ ¬ends pc
  mem : ∀ pc, d'.resume = some pc → pc ∈ d'.breakpoints

namespace Passed

variable {d d' : Debugger} {ends : UInt32 → Prop}

theorem kept (hmem : ∀ pc, d.resume = some pc → pc ∈ d.breakpoints)
    (hends : ∀ pc, ¬ends pc) (hresume : d'.resume = d.resume)
    (hbreakpoints : ∀ pc ∈ d.breakpoints, pc ∈ d'.breakpoints) : Passed ends d d' where
  resume pc := by simp only [hresume, hends pc, not_false_eq_true, and_true]
  mem pc h := hbreakpoints pc (hmem pc (hresume ▸ h))

theorem ended (hends : ∀ pc, ends pc) (hresume : d'.resume = none) : Passed ends d d' where
  resume pc := by simp only [hresume, hends pc, reduceCtorEq, not_true_eq_false, and_false]
  mem pc h := by
    rw [hresume] at h
    cases h

/-- Removing a breakpoint ends a pause there and no other. -/
theorem removeBreakpoint (hmem : ∀ pc, d.resume = some pc → pc ∈ d.breakpoints)
    (addr : UInt32) : Passed (fun pc => addr = pc) d (d.removeBreakpoint addr).2 := by
  unfold Debugger.removeBreakpoint
  split
  · by_cases hresume : d.resume = some addr
    · constructor
      · intro pc
        simp only [hresume, ↓reduceIte, reduceCtorEq, Option.some.injEq, and_not_self]
      · intro pc h
        simp only [hresume, ↓reduceIte, reduceCtorEq] at h
    · have hne : ∀ pc, d.resume = some pc → addr ≠ pc := fun pc h heq => hresume (heq ▸ h)
      constructor
      · intro pc
        simp only [hresume, ↓reduceIte]
        exact (and_iff_left_of_imp (hne pc)).symm
      · intro pc h
        simp only [hresume, ↓reduceIte] at h
        exact (List.mem_erase_of_ne (hne pc h).symm).mpr (hmem pc h)
  · rename_i hcontains
    have hne : ∀ pc, d.resume = some pc → addr ≠ pc := fun pc h heq =>
      hcontains (List.contains_iff_mem.mpr (heq ▸ hmem pc h))
    exact ⟨fun pc => (and_iff_left_of_imp (hne pc)).symm, hmem⟩

end Passed

/-- What an operation other than a call of `step` does to the marker. -/
theorem passed_perform (hmem : ∀ pc, m.debugger.resume = some pc → pc ∈ m.debugger.breakpoints)
    {op : Operation κ} (hop : op.isStepping = false) :
    Passed (fun pc => (Act.other op).endsPause pc) m.debugger (m.perform op).2.debugger := by
  by_cases hreset : op = .reset
  · subst hreset
    exact .ended (fun _ => trivial) rfl
  · rw [(framed_perform hop hreset).debugger]
    cases op with
    | reset => exact absurd rfl hreset
    | clearBreakpoints => exact .ended (fun _ => trivial) rfl
    | removeBreakpoint addr => exact .removeBreakpoint hmem addr
    | setDebugger enabled =>
        cases enabled with
        | true => exact .kept hmem (fun _ => nofun) rfl fun _ h => h
        | false => exact .ended (fun _ => rfl) rfl
    | addBreakpoint addr =>
        rcases m.debugger.perform_addBreakpoint addr with hsame | ⟨-, -, hadded⟩
        · rw [Operation.debuggerWork, Debugger.after_cons, hsame]
          exact .kept hmem (fun _ => id) rfl fun _ h => h
        · rw [Operation.debuggerWork, Debugger.after_cons, hadded]
          exact .kept hmem (fun _ => id) rfl fun _ h => List.mem_append_left _ h
    | _ => exact .kept hmem (fun _ => id) rfl fun _ h => h

/-! ## The marker and the past -/

/-- What a machine remembers of its past is what there is to be remembered. -/
structure Remembers (acts : List (Act κ)) (m : Machine κ) : Prop where
  settled : m.debugger.Settled
  /-- A guest that has stopped did not pause last. -/
  running : ∀ pc, m.debugger.resume = some pc → m.cpu.halted = false
  /-- The marker is at a breakpoint. -/
  mem : ∀ pc, m.debugger.resume = some pc → pc ∈ m.debugger.breakpoints
  /-- The marker is where the last call of `step` paused, if that pause counts. -/
  resume : ∀ pc, m.debugger.resume = some pc ↔ LetGo acts pc

namespace Remembers

theorem new (config : Config) (console : κ) : Remembers [] (Machine.new config console) where
  settled _ := rfl
  running _ _ := rfl
  mem pc h := by cases h
  resume pc := ⟨nofun, fun h => absurd h (letGo_nil pc)⟩

/-- A call of `step` sets the marker when it pauses, and otherwise clears it. -/
theorem resume_step (h : Remembers acts m) :
    m.step.2.debugger.resume = if m.pauses then some m.cpu.pc else none := by
  rw [Machine.resume_step]
  cases hhalted : m.cpu.halted with
  | true =>
      have hpauses : m.pauses = false := by rw [pauses, hhalted]; rfl
      rw [hpauses]
      cases hresume : m.debugger.resume with
      | none => rfl
      | some pc =>
          rw [h.running pc hresume] at hhalted
          cases hhalted
  | false => rw [Debugger.release_of_settled h.settled]; rfl

theorem step (h : Remembers acts m) : Remembers (acts ++ [.step m]) m.step.2 := by
  have hresume : ∀ pc, m.step.2.debugger.resume = some pc ↔ m.pauses = true ∧ m.cpu.pc = pc := by
    intro pc
    rw [h.resume_step]
    cases m.pauses <;> simp
  refine ⟨settled_step h.settled, fun pc hpc => ?_, fun pc hpc => ?_, fun pc => ?_⟩
  · have hpauses := ((hresume pc).mp hpc).1
    rw [step_of_pauses hpauses]
    exact (pauses_iff.mp hpauses).1
  · obtain ⟨hpauses, rfl⟩ := (hresume pc).mp hpc
    have hbreakpoints : m.step.2.debugger.breakpoints = m.debugger.breakpoints :=
      congrArg Debugger.Setting.breakpoints (Confined.step m).setting
    rw [hbreakpoints]
    exact (pauses_iff.mp hpauses).2.2.1
  · rw [hresume, letGo_snoc, pausesAt_iff]
    exact (or_iff_left fun hold => hold.2 trivial).symm

theorem other (h : Remembers acts m) {op : Operation κ} (hop : op.isStepping = false) :
    Remembers (acts ++ [.other op]) (m.perform op).2 := by
  have hpassed := passed_perform h.mem hop
  refine ⟨settled_perform op h.settled, fun pc hpc => ?_, hpassed.mem, fun pc => ?_⟩
  · by_cases hreset : op = .reset
    · rw [hreset]
      rfl
    · have hprogress := progress_perform (m := m) hop hreset
      rw [show (m.perform op).2.cpu.halted = m.cpu.halted from congrArg Progress.halted hprogress]
      exact h.running pc ((hpassed.resume pc).mp hpc).1
  · rw [hpassed.resume, h.resume, letGo_snoc]
    exact (or_iff_right id).symm

end Remembers

/-! ## Main result -/

/-- **Breakpoints hold once.**  Take any call of `step` that a history of a new
machine makes, by itself or within `steps` or `run`, on a machine that has not
stopped.

With the debugger on and a breakpoint at the program counter, the call pauses,
notes the breakpoint and executes nothing, unless the last call of `step` before it
paused there and nothing since has removed that breakpoint, switched the debugger
off or reset the machine.  In that case, and wherever there is no breakpoint or the
debugger is off, the call tries the instruction. -/
theorem breakpoint_holds_once {config : Config} {console : κ} {history : List (Operation κ)}
    {before after : List (Act κ)} {on : Machine κ}
    (hcall : (Machine.new config console).chronicle history = before ++ .step on :: after)
    (hrunning : on.cpu.halted = false) :
    (on.debugger.enabled = true → on.cpu.pc ∈ on.debugger.breakpoints →
      ¬LetGo before on.cpu.pc →
      on.step = (.ok .paused, { on with
        phase := .paused
        debugger := { on.debugger with
          resume := some on.cpu.pc
          events := on.debugger.events.pushOverwrite (.breakpoint on.cpu.pc) } })) ∧
    (on.debugger.enabled = true → on.cpu.pc ∈ on.debugger.breakpoints →
      LetGo before on.cpu.pc → on.Attempts) ∧
    (on.debugger.enabled = false ∨ on.cpu.pc ∉ on.debugger.breakpoints → on.Attempts) := by
  have h : Remembers before on :=
    at_call (fun _ _ h => h.step) (fun _ _ _ hop h => h.other hop) (.new config console) hcall
  refine ⟨fun henabled hmem hfresh => ?_, fun _ _ hletGo => ?_, fun hwatch => ?_⟩
  · have hpauses : on.pauses = true :=
      pauses_iff.mpr ⟨hrunning, henabled, hmem, fun hresume => hfresh ((h.resume _).mp hresume)⟩
    rw [step_of_pauses hpauses, held, Debugger.hold, Debugger.record, if_pos henabled]
  · apply attempts_of_not_pauses hrunning
    rw [Bool.eq_false_iff]
    intro hpauses
    exact (pauses_iff.mp hpauses).2.2.2 ((h.resume _).mpr hletGo)
  · apply attempts_of_not_pauses hrunning
    rw [Bool.eq_false_iff]
    intro hpauses
    obtain ⟨-, henabled, hmem, -⟩ := pauses_iff.mp hpauses
    rcases hwatch with hoff | hnone
    · rw [hoff] at henabled
      cases henabled
    · exact hnone hmem

/-- A machine at a breakpoint, for the first time. -/
def arriving : Machine QueueConsole :=
  (Machine.new {} {}).after [.setDebugger true, .addBreakpoint 0]

/-- The same machine after it paused there, was sent away and came back. -/
def returning : Machine QueueConsole := arriving.after [.step, .setPc 8, .setPc 0]

/-- Coming back does not count as meeting the breakpoint again. -/
theorem breakpoint_holds_once_returning :
    (Machine.new {} {} : Machine QueueConsole).chronicle
        [.setDebugger true, .addBreakpoint 0, .step, .setPc 8, .setPc 0, .step] =
      [.other (.setDebugger true), .other (.addBreakpoint 0), .step arriving,
        .other (.setPc 8), .other (.setPc 0)] ++ .step returning :: [] ∧
    returning.cpu.halted = false ∧ returning.debugger.enabled = true ∧
    returning.cpu.pc ∈ returning.debugger.breakpoints ∧ returning.Attempts := by
  have hcall : (Machine.new {} {} : Machine QueueConsole).chronicle
        [.setDebugger true, .addBreakpoint 0, .step, .setPc 8, .setPc 0, .step] =
      [.other (.setDebugger true), .other (.addBreakpoint 0), .step arriving,
        .other (.setPc 8), .other (.setPc 0)] ++ .step returning :: [] := rfl
  have hrunning : returning.cpu.halted = false := by decide +kernel
  have henabled : returning.debugger.enabled = true := by decide +kernel
  have hmem : returning.cpu.pc ∈ returning.debugger.breakpoints := by decide +kernel
  have hpaused : (Act.step arriving).pausesAt returning.cpu.pc :=
    pausesAt_iff.mpr ⟨by decide +kernel, by decide +kernel⟩
  have hletGo : LetGo [.other (.setDebugger true), .other (.addBreakpoint 0), .step arriving,
      .other (.setPc 8), .other (.setPc 0)] returning.cpu.pc :=
    ⟨[.other (.setDebugger true), .other (.addBreakpoint 0)], .step arriving, _, rfl, hpaused,
      by simp [Act.endsPause]⟩
  obtain ⟨-, htries, -⟩ := breakpoint_holds_once hcall hrunning
  exact ⟨hcall, hrunning, henabled, hmem, htries henabled hmem hletGo⟩

end Machine

end SandboxCpu
