import SandboxCpu.Proofs.Machine.History

/-!
# A reset machine is a new one

A reset goes through the parts of a machine one by one, and most of them keep
something: the heap its extent, the debugger and the tracer their room, the
machine its configuration and its console.  What they keep was settled when the
machine was made (`Machine.Founding`), and nothing that a guest or a host can do
changes it (`founding_perform`).  So the console is all that tells a reset machine
from a new one.

The extent of the heap and the room of debugger and tracer have to be looked at
in every step, since each of these parts is replaced as a whole when it changes.

## Main results

* `reset_eq_new` — with its founding known, a machine resets to a new one.
* `reset_renews` — the same for every history, and for whatever comes after it.
-/

namespace SandboxCpu

namespace Debugger

/-- How many breakpoints and how many events a debugger has room for. -/
structure Room where
  breakpoints : Nat
  events : Nat

/-- The room of a debugger. -/
def room (d : Debugger) : Room := ⟨d.capacity, d.events.capacity⟩

@[simp] theorem room_record (d : Debugger) (e : Event) : (d.record e).room = d.room := by
  unfold record
  split
  · simp only [room, Ring.capacity_pushOverwrite]
  · rfl

@[simp] theorem room_hold (d : Debugger) (pc : UInt32) : (d.hold pc).room = d.room :=
  room_record _ _

@[simp] theorem room_release (d : Debugger) : d.release.room = d.room := by
  unfold release
  split <;> rfl

/-- Whatever is done to a debugger, its room stays. -/
theorem room_perform (d : Debugger) (op : Operation) : (d.perform op).2.room = d.room := by
  cases op with
  | addBreakpoint addr =>
      obtain ⟨breakpoints, hadded⟩ := d.rest_addBreakpoint addr
      rw [hadded]
      rfl
  | removeBreakpoint addr =>
      obtain ⟨breakpoints, resume, hremoved⟩ := d.rest_removeBreakpoint addr
      rw [hremoved]
      rfl
  | pauseBefore pc =>
      show (d.pauseBefore pc).2.room = d.room
      rw [pauseBefore_eq]
      split
      · exact d.room_hold pc
      · exact d.room_release
  | record e => exact d.room_record e
  | setEnabled | setSingleStep | clearBreakpoints | countInstruction | addCycles | takeEvents
  | reset => rfl

theorem room_after (history : List Operation) (d : Debugger) : (d.after history).room = d.room :=
  after_of_perform (P := fun e => e.room = d.room)
    (fun e op he => (e.room_perform op).trans he) history d rfl

end Debugger

namespace Machine

variable {κ : Type}

/-- What was settled when a machine was made. -/
structure Founding where
  config : Config
  /-- Where the heap starts. -/
  heapBase : UInt32
  heapSize : UInt32
  room : Debugger.Room
  /-- How many instructions the tracer keeps. -/
  traceRoom : Nat

/-- The founding of the machines that are made from a configuration. -/
def Founding.of (config : Config) : Founding where
  config := config
  heapBase := Memory.heapBase
  heapSize := Memory.heapSize
  room := ⟨config.breakpointCapacity, config.eventListSize⟩
  traceRoom := config.traceListSize

/-- The founding of a machine. -/
def founding (m : Machine κ) : Founding where
  config := m.config
  heapBase := m.heap.base
  heapSize := m.heap.size
  room := m.debugger.room
  traceRoom := Ring.capacity m.tracer

/-! ## Resetting -/

/-- All that a reset keeps is the founding and the console. -/
theorem reset_eq_new {m : Machine κ} {config : Config} (h : m.founding = .of config) :
    m.reset = new config m.console := by
  simp only [founding, Founding.of, Debugger.room, Founding.mk.injEq, Debugger.Room.mk.injEq] at h
  obtain ⟨hconfig, hbase, hsize, ⟨hbreakpoints, hevents⟩, htrace⟩ := h
  have hheap : m.heap.reset = .fresh Memory.heapBase Memory.heapSize := by
    rw [← hbase, ← hsize]
    rfl
  have hdebugger :
      m.debugger.reset = .fresh config.breakpointCapacity config.eventListSize := by
    rw [← hbreakpoints, ← hevents]
    rfl
  have htracer : Ring.clear m.tracer = .empty config.traceListSize := by
    rw [← htrace]
    rfl
  rw [reset, new, hheap, hdebugger, htracer, hconfig]

/-! ## What a step keeps -/

theorem founding_withDebugger {d : Debugger} {m : Machine κ} (phase : Phase)
    (h : d.room = m.debugger.room) :
    ({ m with debugger := d, phase := phase } : Machine κ).founding = m.founding := by
  simp only [founding, h]

theorem founding_local {m n : Machine κ} (h : Local m n) : n.founding = m.founding := by
  rw [h.rest]
  rfl

theorem founding_alloc (m : Machine κ) (size : UInt32) :
    (m.alloc size).2.founding = m.founding := by
  simp only [founding, alloc, Heap.base_alloc, Heap.size_alloc]

theorem founding_retire (m : Machine κ) (pc word : UInt32) (flow : Flow) :
    (m.retire pc word flow).2.founding = m.founding := by
  have hadvance : (m.advance pc word flow).founding = m.founding := by
    simp only [founding, advance, Tracer.trace, Ring.capacity_pushOverwrite]
    rfl
  rw [← hadvance]
  unfold retire
  dsimp only
  split
  · exact founding_withDebugger (m := m.advance pc word flow) _ (Debugger.room_record _ _)
  · split
    · exact founding_withDebugger (m := m.advance pc word flow) _ (Debugger.room_record _ _)
    · rfl

variable [Console κ]

/-- The host, serving a call, hands out heap and takes the console along. -/
theorem founding_serve (m : Machine κ) (call : SystemCall) :
    (m.serve call).2.founding = m.founding := by
  have hserved := served m call
  generalize (m.serve call).2 = n at hserved ⊢
  cases hserved with
  | exits | asks | stores | sleeps | idles => rfl
  | allocates => exact founding_alloc m _

theorem founding_callHost (m : Machine κ) : m.callHost.founding = m.founding := by
  have hserve := founding_serve
    { m with debugger := m.debugger.record (.syscall m.systemCall.number) } m.systemCall
  exact hserve.trans (founding_withDebugger m.phase (Debugger.room_record _ _))

theorem founding_attempt {m n : Machine κ} {pc word : UInt32} {flow : Flow}
    (h : m.attempt pc = .ok (word, flow, n)) : n.founding = m.founding := by
  obtain ⟨-, i, -, hexecute⟩ := of_attempt h
  by_cases hi : i = .bare .syscall
  · subst hi
    cases hexecute
    exact founding_callHost m
  · exact founding_local (.of_execute hexecute hi)

theorem founding_step (m : Machine κ) : m.step.2.founding = m.founding := by
  have hreleased : m.released.founding = m.founding :=
    founding_withDebugger _ (Debugger.room_release _)
  cases m.situation with
  | stopped hhalted =>
      rw [step_of_halted hhalted]
      rfl
  | held hpauses =>
      rw [step_of_pauses hpauses]
      exact founding_withDebugger _ (Debugger.room_hold _ _)
  | failed hhalted hpauses hattempt =>
      rw [step_of_fault hhalted hpauses hattempt]
      exact hreleased
  | @done word flow n hhalted hpauses hattempt =>
      rw [step_of_success hhalted hpauses hattempt]
      change (n.retire m.cpu.pc word flow).2.founding = m.founding
      rw [founding_retire, founding_attempt hattempt, hreleased]

/-! ## What an operation keeps -/

/-- Nothing that a host does changes what was settled when the machine was made. -/
theorem founding_perform (m : Machine κ) (op : Operation κ) :
    (m.perform op).2.founding = m.founding := by
  have hstep : ∀ n : Machine κ, n.founding = m.founding → n.step.2.founding = m.founding :=
    fun n hn => (founding_step n).trans hn
  cases hop : op.isStepping with
  | true =>
      cases op
      case step => exact founding_step m
      case steps n => exact steps_of_step (P := fun n => n.founding = m.founding) hstep n m rfl
      case run bound => exact run_of_step (P := fun n => n.founding = m.founding) hstep bound m rfl
      all_goals cases hop
  | false =>
      by_cases hreset : op = .reset
      · subst hreset
        rfl
      · have h := framed_perform (m := m) hop hreset
        simp only [founding, h.config, h.heapBase, h.heapSize, h.tracer, h.debugger,
          Debugger.room_after]

theorem founding_after (history : List (Operation κ)) (m : Machine κ) :
    (m.after history).founding = m.founding :=
  after_of_perform (P := fun n => n.founding = m.founding)
    (fun n op hn => (founding_perform n op).trans hn) history m rfl

/-! ## Main result -/

/-- What a host gets back from a sequence of operations. -/
def responses (m : Machine κ) : List (Operation κ) → List Answer
  | [] => []
  | op :: later => (m.perform op).1 :: responses (m.perform op).2 later

/-- **A reset makes a machine new.**  Take the machine after any history.  Once
reset it is, in all its parts, the machine that the same configuration makes and
that is given the console at hand.  So the two give the same answers to whatever
a host does next, and come to the same state. -/
theorem reset_renews {κ₀ : Type} (config : Config) (first : κ₀) (console : κ)
    (history : List (Operation κ)) :
    let m := (new config console).after history
    let fresh := (new config first).setConsole m.console
    m.reset = fresh ∧
      ∀ later, m.reset.responses later = fresh.responses later ∧
        m.reset.after later = fresh.after later := by
  intro m fresh
  have hfounding : m.founding = .of config := founding_after history (new config console)
  have hreset : m.reset = fresh := reset_eq_new hfounding
  exact ⟨hreset, fun later => by rw [hreset]; exact ⟨rfl, rfl⟩⟩

end Machine

end SandboxCpu
