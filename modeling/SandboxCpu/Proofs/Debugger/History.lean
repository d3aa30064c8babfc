import SandboxCpu.Debugger

/-!
# What can be done to a debugger

A debugger is used from two sides.  A host sets it up and reads it, and the machine
asks it before each instruction and has it count and note what happens.  Here all of
this is data, one operation for each thing that a debugger offers, so that the past
of a debugger is a list.

An invariant of debuggers holds of a fresh one and is kept by each operation; it
then holds after every list of them (`after_of_perform`).
-/

namespace SandboxCpu.Debugger

/-- Something that is done to a debugger. -/
inductive Operation
  | setEnabled (enabled : Bool)
  | setSingleStep (on : Bool)
  | addBreakpoint (addr : UInt32)
  | removeBreakpoint (addr : UInt32)
  | clearBreakpoints
  /-- The question whether to pause before an instruction. -/
  | pauseBefore (pc : UInt32)
  | countInstruction
  | addCycles (cycles : UInt64)
  | record (e : Event)
  | takeEvents
  | reset

/-- What comes back from it. -/
inductive Answer
  | done
  | full (e : BreakpointsFull)
  | truth (b : Bool)
  | events (es : List Event)
  deriving DecidableEq

/-- Does an operation: its answer and the debugger after it.  What is refused changes
nothing. -/
def perform (d : Debugger) : Operation → Answer × Debugger
  | .setEnabled enabled => (.done, d.setEnabled enabled)
  | .setSingleStep on => (.done, d.setSingleStep on)
  | .addBreakpoint addr =>
    match d.addBreakpoint addr with
    | .ok d' => (.done, d')
    | .error e => (.full e, d)
  | .removeBreakpoint addr => (.truth (d.removeBreakpoint addr).1, (d.removeBreakpoint addr).2)
  | .clearBreakpoints => (.done, d.clearBreakpoints)
  | .pauseBefore pc => (.truth (d.pauseBefore pc).1, (d.pauseBefore pc).2)
  | .countInstruction => (.done, d.countInstruction)
  | .addCycles cycles => (.done, d.addCycles cycles)
  | .record e => (.done, d.record e)
  | .takeEvents => (.events d.takeEvents.1, d.takeEvents.2)
  | .reset => (.done, d.reset)

/-- Adding a breakpoint changes nothing but the list of them. -/
theorem rest_addBreakpoint (d : Debugger) (addr : UInt32) :
    ∃ breakpoints, (d.perform (.addBreakpoint addr)).2 = { d with breakpoints } := by
  simp only [perform, addBreakpoint]
  split
  · rename_i d' h
    split at h
    · cases h
      exact ⟨_, rfl⟩
    · split at h
      · cases h
      · cases h
        exact ⟨_, rfl⟩
  · exact ⟨_, rfl⟩

/-- Removing one can clear the resume marker too. -/
theorem rest_removeBreakpoint (d : Debugger) (addr : UInt32) :
    ∃ breakpoints resume,
      (d.perform (.removeBreakpoint addr)).2 = { d with breakpoints, resume } := by
  simp only [perform, removeBreakpoint]
  split <;> exact ⟨_, _, rfl⟩

/-- Noting an event changes nothing but the notes. -/
theorem rest_record (d : Debugger) (e : Event) : ∃ events, d.record e = { d with events } := by
  unfold record
  split <;> exact ⟨_, rfl⟩

/-- The question before an instruction can be noted, and sets or clears the resume marker. -/
theorem rest_pauseBefore (d : Debugger) (pc : UInt32) :
    ∃ resume events, (d.perform (.pauseBefore pc)).2 = { d with resume, events } := by
  simp only [perform, pauseBefore]
  split
  · exact ⟨_, _, rfl⟩
  · split
    · exact ⟨_, _, rfl⟩
    · split
      · obtain ⟨events, hrest⟩ := rest_record { d with resume := some pc } (.breakpoint pc)
        exact ⟨_, events, hrest⟩
      · exact ⟨_, _, rfl⟩

/-- The debugger after a history. -/
def after (d : Debugger) (history : List Operation) : Debugger :=
  history.foldl (fun d op => (d.perform op).2) d

@[simp] theorem after_nil (d : Debugger) : d.after [] = d := rfl

@[simp] theorem after_cons (d : Debugger) (op : Operation) (history : List Operation) :
    d.after (op :: history) = (d.perform op).2.after history := rfl

theorem after_append (d : Debugger) (early late : List Operation) :
    d.after (early ++ late) = (d.after early).after late :=
  List.foldl_append

/-- What every operation keeps is kept by a history. -/
theorem after_of_perform {P : Debugger → Prop} (hperform : ∀ d op, P d → P (d.perform op).2)
    (history : List Operation) : ∀ d, P d → P (d.after history) := by
  induction history with
  | nil =>
      intro d hd
      exact hd
  | cons op history ih =>
      intro d hd
      exact ih _ (hperform d op hd)

end SandboxCpu.Debugger
