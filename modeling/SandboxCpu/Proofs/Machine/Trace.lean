import SandboxCpu.Proofs.Machine.Breakpoint
import SandboxCpu.Proofs.Ring.Recent

/-!
# The trace is the recent past

What a machine has executed since it was made or last reset can be read off its
chronicle: each call of `step` that executes an instruction tells of its address
and its word, and a reset starts anew (`executed`).  The tracer and the counter
of instructions are what a machine itself keeps of this list.  The one has the
end of it and the other its length, modulo the size of the counter.

A call of `step` that executes nothing, because the guest has stopped, a
breakpoint holds it or the instruction fails, adds nothing to the list, and
changes neither tracer nor counter.  One that executes an instruction adds it to
all three, whatever comes after it: the next instruction, a jump, a pause or the
end.  This is said once, in `recorded_step`.

## Main results

* `executing_eq_none_iff`: the calls of `step` that execute nothing.
* `Traces.step`, `Traces.perform`: a call keeps tracer and counter in line
  with the past.
* `trace_is_recent_past`: and so does every history.
-/

namespace SandboxCpu

/-- The lines of executed instructions, each ended by a line break. -/
def Listing.text (entries : List TraceEntry) : String :=
  String.join (entries.map fun e => Listing.line e.word e.pc ++ "\n")

/-- What was executed since the last reset, after one more call. -/
def Act.recorded {κ : Type} [Console κ] (past : List TraceEntry) : Act κ → List TraceEntry
  | .step on => past ++ on.executing.toList
  | .other .reset => []
  | .other _ => past

/-- The instructions that a chronicle tells of, up to its last reset. -/
def executed {κ : Type} [Console κ] (acts : List (Act κ)) : List TraceEntry :=
  acts.foldl Act.recorded []

theorem executed_concat {κ : Type} [Console κ] (acts : List (Act κ)) (act : Act κ) :
    executed (acts ++ [act]) = act.recorded (executed acts) := by
  rw [executed, List.foldl_append]
  rfl

namespace Machine

variable {κ : Type} [Console κ] {m : Machine κ}

/-! ## What a call of `step` executes -/

theorem executing_of_stopped (h : m.cpu.halted = true) : m.executing = none := by
  rw [executing, h, Bool.true_or, if_pos rfl]

theorem executing_of_held (h : m.pauses = true) : m.executing = none := by
  rw [executing, h, Bool.or_true, if_pos rfl]

theorem executing_of_failed {f : Fault} (h : m.released.attempt m.cpu.pc = .error f) :
    m.executing = none := by
  rw [executing, h]
  exact ite_self _

theorem executing_of_done {n : Machine κ} {word : UInt32} {flow : Flow}
    (hhalted : m.cpu.halted = false) (hpauses : m.pauses = false)
    (h : m.released.attempt m.cpu.pc = .ok (word, flow, n)) :
    m.executing = some ⟨m.cpu.pc, word⟩ := by
  rw [executing, h, hhalted, hpauses]
  rfl

/-- A call of `step` executes nothing exactly when the guest has stopped, a
breakpoint holds it, or the instruction fails. -/
theorem executing_eq_none_iff :
    m.executing = none ↔
      m.cpu.halted = true ∨ m.pauses = true ∨ ∃ f, m.step.1 = .error f := by
  cases m.situation with
  | stopped hhalted => simp only [executing_of_stopped hhalted, hhalted, true_or]
  | held hpauses => simp only [executing_of_held hpauses, hpauses, true_or, or_true]
  | failed hhalted hpauses hattempt =>
      have herror : ∃ f, m.step.1 = .error f :=
        ⟨_, congrArg Prod.fst (step_of_fault hhalted hpauses hattempt)⟩
      simp only [executing_of_failed hattempt, herror, or_true]
  | done hhalted hpauses hattempt =>
      have hok := congrArg Prod.fst (step_of_success hhalted hpauses hattempt)
      simp [executing_of_done hhalted hpauses hattempt, hhalted, hpauses, hok]

/-! ## What a call of `step` keeps a note of -/

/-- The host, serving a call, does not look at the trace. -/
theorem tracer_serve (m : Machine κ) (call : SystemCall) :
    (m.serve call).2.tracer = m.tracer := by
  have hserved := served m call
  generalize (m.serve call).2 = n at hserved ⊢
  cases hserved <;> rfl

/-- Neither does an instruction. -/
theorem tracer_attempt {n : Machine κ} {pc word : UInt32} {flow : Flow}
    (h : m.attempt pc = .ok (word, flow, n)) : n.tracer = m.tracer := by
  obtain ⟨-, i, -, hexecute⟩ := of_attempt h
  by_cases hi : i = .bare .syscall
  · subst hi
    cases hexecute
    exact tracer_serve _ _
  · rw [(Local.of_execute hexecute hi).rest]

omit [Console κ] in
theorem tracer_retire (m : Machine κ) (pc word : UInt32) (flow : Flow) :
    (m.retire pc word flow).2.tracer = Tracer.trace m.tracer pc word := by
  unfold retire
  dsimp only
  split
  · rfl
  · split <;> rfl

/-- A call of `step` leaves tracer and counter alone when it executes nothing, and
otherwise adds to both. -/
theorem recorded_step (m : Machine κ) :
    (m.executing = none ∧ m.step.2.tracer = m.tracer ∧
        m.step.2.debugger.instructions = m.debugger.instructions) ∨
      ∃ e, m.executing = some e ∧ m.step.2.tracer = Ring.pushOverwrite m.tracer e ∧
        m.step.2.debugger.instructions = m.debugger.instructions + 1 := by
  cases m.situation with
  | stopped hhalted =>
      rw [step_of_halted hhalted]
      exact .inl ⟨executing_of_stopped hhalted, rfl, rfl⟩
  | held hpauses =>
      rw [step_of_pauses hpauses]
      exact .inl ⟨executing_of_held hpauses, rfl, (m.debugger.counters_hold m.cpu.pc).1⟩
  | failed hhalted hpauses hattempt =>
      rw [step_of_fault hhalted hpauses hattempt]
      exact .inl ⟨executing_of_failed hattempt, rfl, m.debugger.counters_release.1⟩
  | done hhalted hpauses hattempt =>
      refine .inr ⟨_, executing_of_done hhalted hpauses hattempt, ?_,
        instructions_success hhalted hpauses hattempt⟩
      rw [step_of_success hhalted hpauses hattempt]
      show (retire _ _ _ _).2.tracer = _
      rw [tracer_retire, tracer_attempt hattempt]
      rfl

/-! ## What a machine has of its past -/

/-- The tracer has the end of a past, and the counter its length. -/
structure Traces (room : Nat) (past : List TraceEntry) (m : Machine κ) : Prop where
  capacity : Ring.capacity m.tracer = room
  recent : Ring.Recent m.tracer past
  count : m.debugger.instructions = UInt64.ofNat past.length

namespace Traces

variable {room : Nat} {past : List TraceEntry}

omit [Console κ] in
theorem toList (h : Traces room past m) : Ring.toList m.tracer = past.rtake room := by
  rw [← h.capacity]
  exact h.recent

omit [Console κ] in
/-- The log is that of the end of the past. -/
theorem log (h : Traces room past m) : Tracer.log m.tracer = Listing.text (past.rtake room) := by
  rw [Tracer.log, h.toList]
  rfl

omit [Console κ] in
theorem new (config : Config) (console : κ) :
    Traces config.traceListSize [] (.new config console) :=
  ⟨rfl, Ring.recent_empty _, rfl⟩

/-- A call of `step` keeps tracer and counter in line with the past. -/
theorem step (h : Traces room past m) :
    Traces room (past ++ m.executing.toList) m.step.2 := by
  rcases recorded_step m with ⟨hnone, htracer, hcount⟩ | ⟨e, hsome, htracer, hcount⟩
  · rw [hnone]
    show Traces room (past ++ []) m.step.2
    rw [List.append_nil]
    refine ⟨?_, ?_, ?_⟩
    · rw [htracer]
      exact h.capacity
    · rw [htracer]
      exact h.recent
    · rw [hcount]
      exact h.count
  · rw [hsome]
    show Traces room (past ++ [e]) m.step.2
    refine ⟨?_, ?_, ?_⟩
    · rw [htracer, Ring.capacity_pushOverwrite]
      exact h.capacity
    · rw [htracer]
      exact h.recent.pushOverwrite e
    · rw [hcount, h.count, List.length_append, List.length_singleton, UInt64.ofNat_add]
      rfl

omit [Console κ] in
/-- A reset starts with an empty past. -/
theorem reset (h : Traces room past m) : Traces room [] m.reset :=
  ⟨h.capacity, Ring.recent_clear _, rfl⟩

/-- An operation other than steps and a reset leaves the past as it is. -/
theorem perform (h : Traces room past m) {op : Operation κ} (hop : op.isStepping = false)
    (hreset : op ≠ .reset) : Traces room past (m.perform op).2 := by
  have hkept := undisturbed_perform (m := m) hop hreset
  refine ⟨?_, ?_, hkept.instructions.trans h.count⟩
  · rw [hkept.tracer]
    exact h.capacity
  · rw [hkept.tracer]
    exact h.recent

/-- A history keeps them in line with what its chronicle tells of. -/
theorem after (config : Config) (console : κ) (history : List (Operation κ)) :
    Traces config.traceListSize (executed ((Machine.new config console).chronicle history))
      ((Machine.new config console).after history) := by
  refine chronicle_keeps (P := fun acts m => Traces config.traceListSize (executed acts) m)
    ?_ ?_ history [] _ (new config console)
  · intro acts m h
    rw [executed_concat]
    exact h.step
  · intro acts m op hop h
    rw [executed_concat]
    by_cases hreset : op = .reset
    · subst hreset
      exact h.reset
    · have hpast : (Act.other op).recorded (executed acts) = executed acts := by
        cases op
        case reset => exact absurd rfl hreset
        all_goals rfl
      rw [hpast]
      exact h.perform hop hreset

end Traces

/-! ## Main result -/

/-- **The trace is the recent past.**  After any history of a new machine, the
tracer holds the end of what was executed since the last reset, as much of it as
there is room for, the log is made of the lines of just that, oldest first, and
the counter has the number of all of it, modulo its size.  Without room the log is
empty.

What counts as executed is said of every machine on which `step` is called:
nothing, if the guest has stopped, a breakpoint holds it or the call ends in a
fault, and otherwise the word that is fetched where the program counter stands,
with that address. -/
theorem trace_is_recent_past (config : Config) (console : κ) (history : List (Operation κ)) :
    let m := (Machine.new config console).after history
    let past := executed ((Machine.new config console).chronicle history)
    let room := config.traceListSize
    (Ring.toList m.tracer = past.rtake room ∧
      (past.rtake room).length = min past.length room ∧
      Tracer.log m.tracer = Listing.text (past.rtake room) ∧
      (room = 0 → Tracer.log m.tracer = "") ∧
      m.debugger.instructions.toNat = past.length % UInt64.size) ∧
    ∀ on : Machine κ,
      (on.executing = none ↔
        on.cpu.halted = true ∨ on.pauses = true ∨ ∃ f, on.step.1 = .error f) ∧
      ∀ e, on.executing = some e →
        e.pc = on.cpu.pc ∧ on.memory.readWord on.cpu.pc .fetching = .ok e.word := by
  intro m past room
  have h : Traces room past m := .after config console history
  refine ⟨⟨h.toList, Ring.length_rtake past room, h.log, fun hroom => ?_, ?_⟩, fun on =>
    ⟨executing_eq_none_iff, fun e he => ?_⟩⟩
  · rw [h.log, hroom, List.rtake_zero]
    rfl
  · rw [h.count]
    exact UInt64.toNat_ofNat'
  · obtain ⟨hpc, hfetch⟩ := fetch_of_executing he
    exact ⟨hpc, readWord_of_fetch hfetch⟩

end Machine

end SandboxCpu
