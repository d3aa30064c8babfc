import SandboxCpu.Machine.Operation
import SandboxCpu.Proofs.Debugger.History

/-!
# What an operation of a host leaves alone

Apart from steps and a reset, an operation of a host is about one part of a machine.
Most are about processor, memory, heap or console.  Others are about the debugger or
the timer, and what these are told is data: a list of operations of the debugger
(`Operation.debuggerWork`), and a number of ticks (`Operation.ticks`).

The rest stays as it is.  This is said once, in `framed_perform`, and an invariant
that has nothing to do with processor, memory, heap and console need not go through
the operations one by one.
-/

namespace SandboxCpu

namespace Operation

variable {κ : Type}

/-- Whether an operation consists of calls of `step`. -/
def isStepping : Operation κ → Bool
  | step | steps _ | run _ => true
  | _ => false

/-- What an operation comes to for the debugger, if it consists of no calls of
`step`. -/
def debuggerWork : Operation κ → List Debugger.Operation
  | reset => [.reset]
  | setDebugger enabled => [.setEnabled enabled]
  | setSingleStep on => [.setSingleStep on]
  | addBreakpoint addr => [.addBreakpoint addr]
  | removeBreakpoint addr => [.removeBreakpoint addr]
  | clearBreakpoints => [.clearBreakpoints]
  | takeEvents => [.takeEvents]
  | _ => []

/-- The ticks that an operation lets pass by itself. -/
def ticks : Operation κ → UInt64
  | advanceTimer ticks => ticks
  | _ => 0

end Operation

namespace Machine

variable {κ : Type} {m n : Machine κ} {op : Operation κ}

/-- The second machine is the first after an operation other than steps and a reset,
as far as processor, memory, heap and console leave it open. -/
structure Framed (op : Operation κ) (m n : Machine κ) : Prop where
  debugger : n.debugger = m.debugger.after op.debuggerWork
  ticks : n.timer.ticks = m.timer.ticks + op.ticks
  halted : n.cpu.halted = m.cpu.halted
  heapBase : n.heap.base = m.heap.base
  heapSize : n.heap.size = m.heap.size
  tracer : n.tracer = m.tracer
  phase : n.phase = m.phase
  exitCode : n.exitCode = m.exitCode
  config : n.config = m.config

/-- Neither debugger nor timer hear of an operation. -/
theorem Framed.untold {cpu : Cpu} {memory : Memory} {heap : Heap} {console : κ}
    (hwork : op.debuggerWork = []) (hticks : op.ticks = 0)
    (hhalted : cpu.halted = m.cpu.halted) (hbase : heap.base = m.heap.base)
    (hsize : heap.size = m.heap.size) :
    Framed op m { m with cpu, memory, heap, console } := by
  refine ⟨?_, ?_, hhalted, hbase, hsize, rfl, rfl, rfl, rfl⟩
  · rw [hwork]
    rfl
  · rw [hticks]
    exact (UInt64.add_zero _).symm

/-- Only the debugger hears of an operation. -/
theorem Framed.told {d : Debugger} (hticks : op.ticks = 0)
    (hd : d = m.debugger.after op.debuggerWork) : Framed op m { m with debugger := d } := by
  refine ⟨hd, ?_, rfl, rfl, rfl, rfl, rfl, rfl, rfl⟩
  rw [hticks]
  exact (UInt64.add_zero _).symm

/-- The debugger goes on counting from where it was. -/
theorem Framed.counters (h : Framed op m n) (hreset : op ≠ .reset) :
    n.debugger.instructions = m.debugger.instructions ∧
      n.debugger.cycles = m.debugger.cycles := by
  rw [h.debugger]
  cases op with
  | reset => exact absurd rfl hreset
  | addBreakpoint addr =>
      obtain ⟨breakpoints, hadded⟩ := m.debugger.rest_addBreakpoint addr
      rw [Operation.debuggerWork, Debugger.after_cons, hadded]
      exact ⟨rfl, rfl⟩
  | removeBreakpoint addr =>
      obtain ⟨breakpoints, resume, hremoved⟩ := m.debugger.rest_removeBreakpoint addr
      rw [Operation.debuggerWork, Debugger.after_cons, hremoved]
      exact ⟨rfl, rfl⟩
  | _ => exact ⟨rfl, rfl⟩

variable [Console κ]

theorem framed_perform (hop : op.isStepping = false) (hreset : op ≠ .reset) :
    Framed op m (m.perform op).2 := by
  cases op with
  | step | steps | run => cases hop
  | reset => exact absurd rfl hreset
  | load addr image =>
      simp only [perform, loadProgram]
      cases m.memory.load addr image <;> exact .untold rfl rfl rfl rfl rfl
  | write addr bytes =>
      simp only [perform, writeMemory]
      cases m.memory.write addr bytes .writing <;> exact .untold rfl rfl rfl rfl rfl
  | setProtection page p =>
      simp only [perform]
      cases m.memory.setProtection page p <;> exact .untold rfl rfl rfl rfl rfl
  | setReg reg value =>
      simp only [perform, Cpu.setReg?]
      by_cases hreg : reg < 16
      · simp only [hreg, ↓reduceDIte]
        exact .untold rfl rfl rfl rfl rfl
      · simp only [hreg, ↓reduceDIte]
        exact .untold rfl rfl rfl rfl rfl
  | alloc size =>
      exact .untold rfl rfl rfl (Heap.base_alloc m.heap size) (Heap.size_alloc m.heap size)
  | addBreakpoint addr =>
      have hadd : ((m.perform (.addBreakpoint addr)).2 : Machine κ) =
          { m with debugger := (m.debugger.perform (.addBreakpoint addr)).2 } := by
        simp only [perform, Debugger.perform]
        cases m.debugger.addBreakpoint addr <;> rfl
      rw [hadd]
      exact .told rfl rfl
  | setDebugger | setSingleStep | removeBreakpoint | clearBreakpoints | takeEvents =>
      exact .told rfl rfl
  | advanceTimer ticks => exact ⟨rfl, rfl, rfl, rfl, rfl, rfl, rfl, rfl, rfl⟩
  | setPc | setSp | setFp | free | setConsole =>
      exact .untold rfl rfl rfl rfl rfl

end Machine

end SandboxCpu
