import SandboxCpu.Proofs.Machine.Confinement
import SandboxCpu.Proofs.Machine.Frame

/-!
# What a host can bring about

A machine is *reachable* when a host made it and then did to it whatever it
liked.  An invariant of the reachable machines holds of every new machine and is
kept by each operation; for the operations that take many steps it is enough
that one step keeps it (`steps_of_step`, `run_of_step`).

The first such invariant is about the resume marker: a debugger that is off has
none (`Debugger.Settled`).  It holds because the marker is set only by a pause,
which needs the debugger on, and because switching the debugger off clears it.
-/

namespace SandboxCpu

/-- A debugger that is off does not remember a pause. -/
def Debugger.Settled (d : Debugger) : Prop := d.enabled = false → d.resume = none

/-- Whatever is done to a debugger leaves it so. -/
theorem Debugger.Settled.perform {d : Debugger} (h : d.Settled) (op : Operation) :
    (d.perform op).2.Settled := by
  cases op with
  | setEnabled enabled =>
      intro hoff
      change enabled = false at hoff
      rw [hoff]
      rfl
  | addBreakpoint addr =>
      obtain ⟨breakpoints, hadded⟩ := d.rest_addBreakpoint addr
      rw [hadded]
      exact h
  | removeBreakpoint addr =>
      simp only [Debugger.perform, removeBreakpoint]
      split
      · intro hoff
        have hresume := h hoff
        simp only [hresume, ite_self]
      · exact h
  | pauseBefore pc =>
      show (d.pauseBefore pc).2.Settled
      rw [pauseBefore_eq]
      by_cases hholds : d.holds pc = true
      · rw [if_pos hholds]
        intro hoff
        have hon : (d.hold pc).enabled = true :=
          (congrArg Setting.enabled (d.setting_hold pc)).trans (holds_iff.mp hholds).1
        rw [hon] at hoff
        cases hoff
      · rw [if_neg hholds]
        show d.release.Settled
        unfold release
        split
        · exact fun _ => rfl
        · exact h
  | record e =>
      intro hoff
      show (d.record e).resume = none
      rw [resume_record]
      exact h ((congrArg Setting.enabled (d.setting_record e)).symm.trans hoff)
  | clearBreakpoints | reset => exact fun _ => rfl
  | setSingleStep | countInstruction | addCycles | takeEvents => exact h

namespace Machine

variable {κ : Type} [Console κ] {m : Machine κ}

/-- The machine is one that a host can bring about. -/
def Reachable (m : Machine κ) : Prop :=
  ∃ config console history, m = (new config console).after history

/-! ## Loading -/

omit [Console κ] in
/-- Loading a program changes nothing but memory. -/
theorem loadProgram_eq_ok_iff {m' : Machine κ} {addr : UInt32} {image : List UInt8} :
    m.loadProgram addr image = .ok m' ↔
      m.memory.load addr image = .ok m'.memory ∧ m' = { m with memory := m'.memory } := by
  unfold loadProgram
  cases m.memory.load addr image with
  | error e => exact ⟨nofun, nofun⟩
  | ok memory =>
      constructor
      · intro h
        cases h
        exact ⟨rfl, rfl⟩
      · rintro ⟨h, hm⟩
        cases h
        rw [hm]
        rfl

/-! ## Invariants of histories -/

/-- What every operation keeps is kept by a history. -/
theorem after_of_perform {P : Machine κ → Prop}
    (hperform : ∀ m op, P m → P (m.perform op).2) (history : List (Operation κ)) :
    ∀ m : Machine κ, P m → P (m.after history) := by
  induction history with
  | nil => intro m hm; exact hm
  | cons op history ih => intro m hm; exact ih _ (hperform m op hm)

/-- What holds at the start and is kept by every operation holds of all that is
reachable. -/
theorem Reachable.invariant {P : Machine κ → Prop}
    (hnew : ∀ config console, P (new config console))
    (hperform : ∀ m op, P m → P (m.perform op).2) (h : m.Reachable) : P m := by
  obtain ⟨config, console, history, rfl⟩ := h
  exact after_of_perform hperform history _ (hnew config console)

/-- What one step keeps, several steps keep. -/
theorem steps_of_step {P : Machine κ → Prop} (hstep : ∀ m, P m → P m.step.2) (n : Nat) :
    ∀ m : Machine κ, P m → P (steps n m).2 := by
  induction n with
  | zero => intro m hm; exact hm
  | succ n ih =>
      intro m hm
      have hnext := hstep m hm
      unfold steps
      split
      · rename_i n' heq
        rw [heq] at hnext
        exact ih n' hnext
      · exact hnext

/-- What one step keeps, a run keeps. -/
theorem run_of_step {P : Machine κ → Prop} (hstep : ∀ m, P m → P m.step.2) (bound : Nat) :
    ∀ m : Machine κ, P m → P (run bound m).2 := by
  induction bound with
  | zero => intro m hm; exact hm
  | succ n ih =>
      intro m hm
      have hnext := hstep m hm
      unfold run
      split
      · rename_i n' heq
        rw [heq] at hnext
        exact ih n' hnext
      all_goals
        rename_i heq
        rw [heq] at hnext
        exact hnext

/-! ## The resume marker -/

omit [Console κ] in
theorem resume_retire (m : Machine κ) (pc word : UInt32) (flow : Flow) :
    (m.retire pc word flow).2.debugger.resume = m.debugger.resume := by
  unfold retire
  dsimp only
  split
  · exact Debugger.resume_record _ _
  · split
    · exact Debugger.resume_record _ _
    · rfl

/-- Where the machine pauses is remembered, and forgotten when it goes on. -/
theorem resume_step (m : Machine κ) :
    m.step.2.debugger.resume =
      if m.cpu.halted then m.debugger.resume
      else if m.pauses then some m.cpu.pc
      else m.debugger.release.resume := by
  cases m.situation with
  | stopped hhalted =>
      rw [step_of_halted hhalted, if_pos hhalted]
  | held hpauses =>
      rw [step_of_pauses hpauses, hpauses, (pauses_iff.mp hpauses).1]
      exact Debugger.resume_record _ _
  | failed hhalted hpauses hattempt =>
      rw [step_of_fault hhalted hpauses hattempt, hhalted, hpauses]
      rfl
  | done hhalted hpauses hattempt =>
      rw [step_of_success hhalted hpauses hattempt, hhalted, hpauses]
      change (retire _ _ _ _).2.debugger.resume = _
      rw [resume_retire, (kept_attempt hattempt).2.1]
      rfl

theorem settled_step (h : m.debugger.Settled) : m.step.2.debugger.Settled := by
  intro hoff
  have henabled : m.debugger.enabled = false := by
    rw [← hoff]
    exact congrArg Debugger.Setting.enabled (Confined.step m).setting.symm
  rw [resume_step, pauses_of_off henabled, Debugger.release, henabled]
  simp only [Bool.false_eq_true, ↓reduceIte, ite_self]
  exact h henabled

/-- Every operation leaves a settled debugger settled. -/
theorem settled_perform (op : Operation κ) (h : m.debugger.Settled) :
    (m.perform op).2.debugger.Settled := by
  cases hop : op.isStepping with
  | true =>
      cases op
      case step => exact settled_step h
      case steps n =>
        exact steps_of_step (P := fun m => m.debugger.Settled) (fun _ => settled_step) n m h
      case run bound =>
        exact run_of_step (P := fun m => m.debugger.Settled) (fun _ => settled_step) bound m h
      all_goals cases hop
  | false =>
      by_cases hreset : op = .reset
      · subst hreset
        exact fun _ => rfl
      · rw [(framed_perform hop hreset).debugger]
        exact Debugger.after_of_perform (fun _ op h => h.perform op) _ _ h

/-- A debugger that is off remembers no pause, whatever the host did before. -/
theorem Reachable.settled (h : m.Reachable) : m.debugger.Settled :=
  h.invariant (P := fun m => m.debugger.Settled) (fun _ _ _ => rfl) fun _ op => settled_perform op

end Machine

end SandboxCpu
