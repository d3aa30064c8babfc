import SandboxCpu.Proofs.Machine.Bookkeeping

/-!
# The event log is the recent past

What there was to note since the log was last taken, or the machine reset, can be
read off its chronicle (`noteworthy`).  Each call of `step` adds what happens in it,
in order, provided that the debugger is on: a pause at a breakpoint, a call to the
host, and at the end of an instruction that the guest stops or that execution pauses
(`happenings`).  The log itself is a bounded queue, and holds the end of this list.

The debugger notes an event at a time, at four places of a step, and asks each time
whether it is on.  That it hears just what happens is said by composing
what it hears at each of them (`Debugger.Heard`).  Whether it is on does not change
within a step.

## Main results

* `heard_step`: a call of `step` is heard as it happens.
* `log_is_recent_past`: taking the log, after any history.
-/

namespace SandboxCpu

namespace Debugger

/-- The second debugger is the first after it heard of events, which it kept if it is
on.  Counters and the resume marker do not matter. -/
structure Heard (es : List Event) (d d' : Debugger) : Prop where
  enabled : d'.enabled = d.enabled
  events : d'.events = if d.enabled then es.foldl Ring.pushOverwrite d.events else d.events

namespace Heard

variable {es es' : List Event} {d d' d'' : Debugger}

theorem of_events_eq (henabled : d'.enabled = d.enabled) (hevents : d'.events = d.events) :
    Heard [] d d' :=
  ⟨henabled, hevents.trans (ite_self _).symm⟩

/-- A debugger that is off hears nothing, whatever happens. -/
theorem of_off (hoff : d.enabled = false) (h : Heard es d d') : Heard es' d d' := by
  refine ⟨h.enabled, h.events.trans ?_⟩
  rw [hoff]
  rfl

theorem trans (h : Heard es d d') (h' : Heard es' d' d'') : Heard (es ++ es') d d'' := by
  refine ⟨h'.enabled.trans h.enabled, ?_⟩
  rw [h'.events, h.enabled, h.events, List.foldl_append]
  split <;> rfl

theorem record (d : Debugger) (e : Event) : Heard [e] d (d.record e) := by
  refine ⟨congrArg Setting.enabled (d.setting_record e), ?_⟩
  unfold Debugger.record
  split <;> rfl

theorem countInstruction (d : Debugger) : Heard [] d d.countInstruction := of_events_eq rfl rfl

theorem addCycles (d : Debugger) (cycles : UInt64) : Heard [] d (d.addCycles cycles) :=
  of_events_eq rfl rfl

theorem hold (d : Debugger) (pc : UInt32) : Heard [.breakpoint pc] d (d.hold pc) := by
  have hrecord := record { d with resume := some pc } (.breakpoint pc)
  exact ⟨hrecord.enabled, hrecord.events⟩

theorem release (d : Debugger) : Heard [] d d.release := by
  unfold Debugger.release
  split <;> exact of_events_eq rfl rfl

end Heard

end Debugger

namespace Machine

variable {κ : Type} {m : Machine κ}

/-! ## What happens in a call of `step` -/

/-- What happens when an instruction is executed.  Afterwards the guest has stopped, or
execution pauses if it is to do so after every instruction. -/
def instructionEvents (m : Machine κ) (i : Instruction) : List Event :=
  (if i = .bare .syscall then [.syscall m.systemCall.number] else []) ++
  (if i.stops m.systemCall.number then [.halted]
    else if m.debugger.singleStep then [.singleStep m.cpu.pc]
    else [])

/-- What happens in the next call of `step`.  It is nothing when the guest has stopped
or an instruction fails. -/
def happenings [Console κ] (m : Machine κ) : List Event :=
  if m.pauses then [.breakpoint m.cpu.pc]
  else
    match m.instruction with
    | none => []
    | some i => m.instructionEvents i

/-- The call instruction notes its number, and no other notes anything by itself. -/
theorem heard_callWork (m : Machine κ) (i : Instruction) (d : Debugger) :
    d.Heard (if i = .bare .syscall then [.syscall m.systemCall.number] else [])
      (d.after (m.callWork i)) := by
  unfold callWork
  by_cases hi : i = .bare .syscall
  · have hrecord := Debugger.Heard.record d (.syscall m.systemCall.number)
    rw [if_pos hi, if_pos hi]
    by_cases hnumber : m.systemCall.number = 5
    · rw [if_pos hnumber]
      exact hrecord.trans (.addCycles _ _)
    · rw [if_neg hnumber]
      exact hrecord
  · rw [if_neg hi, if_neg hi]
    exact .of_events_eq rfl rfl

/-- After an instruction it is noted why execution does not go on. -/
theorem heard_retireWork (m : Machine κ) (i : Instruction) {d : Debugger}
    (henabled : d.enabled = m.debugger.enabled) :
    d.Heard
      (if i.stops m.systemCall.number then [.halted]
        else if m.debugger.singleStep then [.singleStep m.cpu.pc]
        else [])
      (d.after (m.retireWork i)) := by
  have hcount := Debugger.Heard.countInstruction d
  unfold retireWork
  rw [Debugger.after_cons]
  cases hstops : i.stops m.systemCall.number with
  | true => exact hcount.trans (.record _ _)
  | false =>
      cases hon : m.debugger.enabled with
      | false =>
          have hsingle : m.debugger.isSingleStep = false := by
            rw [Debugger.isSingleStep, hon, Bool.false_and]
          rw [hsingle]
          exact hcount.of_off (henabled.trans hon)
      | true =>
          have hsingle : m.debugger.isSingleStep = m.debugger.singleStep := by
            rw [Debugger.isSingleStep, hon, Bool.true_and]
          rw [hsingle]
          cases m.debugger.singleStep with
          | true => exact hcount.trans (.record _ _)
          | false => exact hcount

variable [Console κ]

/-- Taking the log and a reset clear it, and no other operation but steps touches it. -/
theorem events_perform {op : Operation κ} (hop : op.isStepping = false) :
    (m.perform op).2.debugger.events =
      match op with
      | .takeEvents | .reset => m.debugger.events.clear
      | _ => m.debugger.events := by
  rw [debugger_perform hop]
  cases op with
  | step | steps | run => cases hop
  | addBreakpoint addr =>
      obtain ⟨breakpoints, hadded⟩ := m.debugger.rest_addBreakpoint addr
      show (m.debugger.perform (.addBreakpoint addr)).2.events = m.debugger.events
      rw [hadded]
  | removeBreakpoint addr =>
      obtain ⟨breakpoints, resume, hremoved⟩ := m.debugger.rest_removeBreakpoint addr
      show (m.debugger.perform (.removeBreakpoint addr)).2.events = m.debugger.events
      rw [hremoved]
  | _ => rfl

/-- **A call of `step` is heard as it happens.** -/
theorem heard_step (m : Machine κ) : m.debugger.Heard m.happenings m.step.2.debugger := by
  rw [debugger_step, stepWork, happenings]
  cases hhalted : m.cpu.halted with
  | true =>
      have hpauses : m.pauses = false := by
        rw [pauses, hhalted]
        rfl
      rw [hpauses, instruction_of_idle (executing_of_stopped hhalted)]
      exact .of_events_eq rfl rfl
  | false =>
      show m.debugger.Heard _ ((m.debugger.pauseBefore m.cpu.pc).2.after _)
      rw [pauseBefore_of_running hhalted]
      cases hpauses : m.pauses with
      | true =>
          rw [instruction_of_idle (executing_of_held hpauses)]
          exact .hold m.debugger m.cpu.pc
      | false =>
          have hrelease : m.debugger.Heard [] m.released.debugger := .release m.debugger
          cases m.instruction with
          | none => exact hrelease
          | some i =>
              have hcall := heard_callWork m i m.released.debugger
              have hretire := heard_retireWork m i (hcall.enabled.trans hrelease.enabled)
              show m.debugger.Heard ([] ++ m.instructionEvents i)
                (m.released.debugger.after (m.callWork i ++ m.retireWork i))
              rw [Debugger.after_append]
              exact hrelease.trans (hcall.trans hretire)

end Machine

/-! ## The past of the log -/

/-- What there is to note since the log was taken or the machine reset, after one
more call. -/
def Act.noted {κ : Type} [Console κ] (past : List Event) : Act κ → List Event
  | .step on => if on.debugger.enabled then past ++ on.happenings else past
  | .other .takeEvents | .other .reset => []
  | .other _ => past

/-- What a chronicle has to note. -/
def noteworthy {κ : Type} [Console κ] (acts : List (Act κ)) : List Event :=
  acts.foldl Act.noted []

theorem noteworthy_concat {κ : Type} [Console κ] (acts : List (Act κ)) (act : Act κ) :
    noteworthy (acts ++ [act]) = act.noted (noteworthy acts) := by
  rw [noteworthy, List.foldl_append]
  rfl

namespace Machine

variable {κ : Type} [Console κ] {m : Machine κ}

/-- The log has the end of a past. -/
structure Logs (room : Nat) (past : List Event) (m : Machine κ) : Prop where
  capacity : m.debugger.events.capacity = room
  recent : m.debugger.events.Recent past

namespace Logs

variable {room : Nat} {past : List Event}

omit [Console κ] in
theorem toList (h : Logs room past m) : m.debugger.events.toList = past.rtake room := by
  rw [← h.capacity]
  exact h.recent

omit [Console κ] in
theorem new (config : Config) (console : κ) :
    Logs config.eventListSize [] (.new config console) :=
  ⟨rfl, Ring.recent_empty _⟩

theorem step (h : Logs room past m) : Logs room ((Act.step m).noted past) m.step.2 := by
  have hevents := (heard_step m).events
  rw [Act.noted]
  cases henabled : m.debugger.enabled with
  | false =>
      rw [henabled] at hevents
      exact ⟨congrArg Ring.capacity hevents ▸ h.capacity, hevents ▸ h.recent⟩
  | true =>
      rw [henabled] at hevents
      refine ⟨?_, ?_⟩
      · rw [hevents]
        exact (Ring.capacity_foldl_pushOverwrite _ _).trans h.capacity
      · rw [hevents]
        exact h.recent.foldl_pushOverwrite m.happenings

omit [Console κ] in
theorem cleared (h : Logs room past m) {n : Machine κ}
    (hevents : n.debugger.events = m.debugger.events.clear) : Logs room [] n :=
  ⟨congrArg Ring.capacity hevents ▸ h.capacity, hevents ▸ Ring.recent_clear _⟩

theorem perform (h : Logs room past m) {op : Operation κ} (hop : op.isStepping = false) :
    Logs room ((Act.other op).noted past) (m.perform op).2 := by
  have hevents := events_perform (m := m) hop
  cases op with
  | takeEvents | reset => exact h.cleared hevents
  | _ => exact ⟨congrArg Ring.capacity hevents ▸ h.capacity, hevents ▸ h.recent⟩

/-- A history keeps the log in line with what its chronicle has to note. -/
theorem after (config : Config) (console : κ) (history : List (Operation κ)) :
    Logs config.eventListSize (noteworthy ((Machine.new config console).chronicle history))
      ((Machine.new config console).after history) := by
  refine chronicle_keeps (P := fun acts m => Logs config.eventListSize (noteworthy acts) m)
    ?_ ?_ history [] _ (new config console)
  · intro acts m h
    rw [noteworthy_concat]
    exact h.step
  · intro acts m op hop h
    rw [noteworthy_concat]
    exact h.perform hop

end Logs

/-! ## Main result -/

/-- **The event log is the recent past.**  Take the log of a machine after any
history of a new one.  The answer is the end of what there was to note since the log
was last taken or the machine reset, oldest first, as much of it as there is room
for.  The log is empty afterwards, and nothing else has changed.

What there is to note is said of every machine on which `step` is called with the
debugger on: a pause at a breakpoint, or what the executed instruction does.  Such a
pause is one that counts no instruction.  None is executed if the guest has stopped, a
breakpoint holds it or the call ends in a fault, and otherwise it is that of the word at
the program counter. -/
theorem log_is_recent_past (config : Config) (console : κ) (history : List (Operation κ)) :
    let m := (Machine.new config console).after history
    let past := noteworthy ((Machine.new config console).chronicle history)
    let room := config.eventListSize
    ((m.perform .takeEvents).1 = .events (past.rtake room) ∧
      (past.rtake room).length = min past.length room ∧
      (m.perform .takeEvents).2 =
        { m with debugger := { m.debugger with events := .empty room } }) ∧
    ∀ on : Machine κ,
      (on.pauses = true ↔ on.step.1 = .ok .paused ∧
        on.step.2.debugger.instructions = on.debugger.instructions) ∧
      (on.instruction = none ↔
        on.cpu.halted = true ∨ on.pauses = true ∨ ∃ f, on.step.1 = .error f) ∧
      ∀ i, on.instruction = some i →
        ∃ word, on.memory.readWord on.cpu.pc .fetching = .ok word ∧
          Instruction.decode word = .ok i := by
  intro m past room
  have h : Logs room past m := .after config console history
  refine ⟨⟨?_, Ring.length_rtake past room, ?_⟩, fun on =>
    ⟨?_, instruction_eq_none_iff, fun i hi => fetch_of_instruction hi⟩⟩
  · rw [← h.toList]
    rfl
  · rw [← h.capacity]
    rfl
  · have hpause : (Act.step on).pausesAt on.cpu.pc ↔ on.pauses = true ∧ on.cpu.pc = on.cpu.pc :=
      pausesAt_iff
    simp only [Act.pausesAt, true_and, and_true] at hpause
    exact hpause.symm

end Machine

end SandboxCpu
