import SandboxCpu.Proofs.Machine.Phase

/-!
# Machines in step

Machines that are alike execute an instruction alike.  Whether a call of `step`
gets to an instruction, and what it says afterwards, is the debugger's to decide; when
a likeness lets debuggers differ in nothing, alike machines therefore answer each call
of `step` alike, and stay alike (`Likeness.Alike.step`).

What may differ is then the console and a part of memory, and the modules that
compare two machines in this way have nothing left to say about steps.
-/

namespace SandboxCpu

namespace Likeness

variable {κ κ' : Type} [Console κ] [Console κ'] {L : Likeness κ κ'}

/-- A likeness of machines with one and the same debugger. -/
def SharesDebugger (L : Likeness κ κ') : Prop := ∀ d d', L.debugger d d' ↔ d' = d

namespace Alike

variable {m n : Machine κ} {m' n' : Machine κ'}

theorem debugger_eq (h : L.Alike m m') (hshares : L.SharesDebugger) :
    m'.debugger = m.debugger := (hshares _ _).mp h.debugger

theorem pauses (h : L.Alike m m') (hshares : L.SharesDebugger) : m'.pauses = m.pauses := by
  rw [Machine.pauses, Machine.pauses, h.cpu, h.debugger_eq hshares]

theorem released (h : L.Alike m m') (hshares : L.SharesDebugger) :
    L.Alike m.released m'.released :=
  { h with debugger := (hshares _ _).mpr (congrArg Debugger.release (h.debugger_eq hshares)) }

theorem held (h : L.Alike m m') (hshares : L.SharesDebugger) : L.Alike m.held m'.held := by
  refine { h with debugger := (hshares _ _).mpr ?_ }
  show m'.debugger.hold m'.cpu.pc = m.debugger.hold m.cpu.pc
  rw [h.debugger_eq hshares, h.cpu]

/-- What follows a success does not look at what may differ. -/
theorem retire (h : L.Alike n n') (hshares : L.SharesDebugger) (pc word : UInt32)
    (flow : Flow) :
    (n'.retire pc word flow).1 = (n.retire pc word flow).1 ∧
      L.Alike (n.retire pc word flow).2 (n'.retire pc word flow).2 := by
  have hdebugger := h.debugger_eq hshares
  have hadvance := h.advance pc word flow
  constructor
  · rw [Machine.retire_fst, Machine.retire_fst, hdebugger]
  · unfold Machine.retire
    dsimp only
    rw [hdebugger]
    split
    · exact { hadvance with debugger := (hshares _ _).mpr rfl }
    · split
      · exact { hadvance with debugger := (hshares _ _).mpr rfl }
      · exact { hadvance with debugger := (hshares _ _).mpr rfl }

/-- **Alike machines with the same debugger answer a call of `step` alike**, and it
leaves them alike. -/
theorem step (h : L.Alike m m') (hshares : L.SharesDebugger) :
    m'.step.1 = m.step.1 ∧ L.Alike m.step.2 m'.step.2 := by
  have hcpu : m'.cpu = m.cpu := h.cpu
  have hpauses' := h.pauses hshares
  cases m.situation with
  | stopped hhalted =>
      rw [Machine.step_of_halted hhalted, Machine.step_of_halted (hcpu ▸ hhalted)]
      exact ⟨rfl, { h with }⟩
  | held hpauses =>
      rw [Machine.step_of_pauses hpauses, Machine.step_of_pauses (hpauses'.trans hpauses)]
      exact ⟨rfl, h.held hshares⟩
  | failed hhalted hpauses hattempt =>
      have hreleased := h.released hshares
      obtain ⟨f, hx, hy⟩ | ⟨r, r', hx, -, -⟩ := (hreleased.attempt m.cpu.pc).elim
      · rw [← hcpu] at hy
        rw [Machine.step_of_fault hhalted hpauses hx,
          Machine.step_of_fault (hcpu ▸ hhalted) (hpauses'.trans hpauses) hy]
        exact ⟨rfl, { hreleased with }⟩
      · rw [hattempt] at hx
        cases hx
  | @done word flow n hhalted hpauses hattempt =>
      obtain ⟨f, hx, -⟩ | ⟨r, ⟨word', flow', n'⟩, hx, hy, hword, hflow, hn⟩ :=
        ((h.released hshares).attempt m.cpu.pc).elim
      · rw [hattempt] at hx
        cases hx
      · rw [hattempt] at hx
        cases hx
        cases hword
        cases hflow
        rw [← hcpu] at hy
        obtain ⟨hanswer, hretired⟩ := hn.retire hshares m.cpu.pc word flow
        rw [Machine.step_of_success hhalted hpauses hattempt,
          Machine.step_of_success (hcpu ▸ hhalted) (hpauses'.trans hpauses) hy, hcpu]
        exact ⟨congrArg Except.ok hanswer, { hretired with }⟩

/-- So do any number of calls. -/
theorem stepped (h : L.Alike m m') (hshares : L.SharesDebugger) (k : Nat) :
    L.Alike (m.stepped k) (m'.stepped k) := by
  induction k with
  | zero => exact h
  | succ k ih =>
      rw [Machine.stepped_succ, Machine.stepped_succ]
      exact (ih.step hshares).2

/-- The phases are the same too, if they were so at first. -/
theorem phase_stepped (h : L.Alike m m') (hshares : L.SharesDebugger)
    (hphase : m'.phase = m.phase) (k : Nat) : (m'.stepped k).phase = (m.stepped k).phase := by
  cases k with
  | zero => exact hphase
  | succ k =>
      rw [Machine.stepped_succ, Machine.stepped_succ, Machine.phase_step, Machine.phase_step,
        ((h.stepped hshares k).step hshares).1]

end Alike

end Likeness

end SandboxCpu
