import SandboxCpu.Proofs.Debugger.Counters
import SandboxCpu.Proofs.Machine.Bookkeeping

/-!
# Instructions, cycles and ticks

Three counters of a machine tell of its past.  Two are the debugger's, which counts
instructions and cycles whether it is on or off, and the third is the timer's.  An
instruction takes one cycle.  A guest that sleeps makes ticks and cycles of the same
number pass, and a host that advances the timer makes ticks pass alone.

What happened since the machine was made or reset is added up without bound
(`tally`).  The counters have these sums, modulo their size (`Counts`).  A call of
`step` that pauses, fails, or finds the guest stopped adds to none of them, and one
that executes an instruction adds to them whatever comes of it: a failed call to the
host is an instruction like any other.

## Main results

* `counted_step`: what a call of `step` counts.
* `counters_tell_time`: the counters after any history, and that cycles are
  instructions and ticks as long as the host advances nothing.
-/

namespace SandboxCpu

namespace Machine

variable {κ : Type} {m : Machine κ}

/-! ## What a call of `step` counts -/

/-- The call instruction counts slept cycles, and no other counts any by itself. -/
theorem counted_callWork (m : Machine κ) (i : Instruction) (d : Debugger) :
    d.Counted 0
      (if i = .bare .syscall ∧ m.systemCall.number = 5 then m.systemCall.arg0 else 0).toNat
      (d.after (m.callWork i)) := by
  unfold callWork
  by_cases hi : i = .bare .syscall
  · have hrecord := Debugger.Counted.record d (.syscall m.systemCall.number)
    rw [if_pos hi]
    by_cases hnumber : m.systemCall.number = 5
    · rw [if_pos hnumber, if_pos ⟨hi, hnumber⟩]
      rw [← UInt32.toNat_toUInt64]
      exact hrecord.after_nothing (.addCycles _ _)
    · rw [if_neg hnumber, if_neg fun hboth => hnumber hboth.2]
      exact hrecord
  · rw [if_neg hi, if_neg fun hboth => hi hboth.1]
    exact .nothing ⟨rfl, rfl⟩

/-- What follows an instruction counts it. -/
theorem counted_retireWork (m : Machine κ) (i : Instruction) (d : Debugger) :
    d.Counted 1 1 (d.after (m.retireWork i)) := by
  have hcount := Debugger.Counted.countInstruction d
  unfold retireWork
  rw [Debugger.after_cons]
  split
  · exact hcount.trans (.record _ _)
  · split
    · exact hcount.trans (.record _ _)
    · exact hcount

variable [Console κ]

/-- How many instructions the next call of `step` executes: one, if any. -/
def executes (m : Machine κ) : Nat := if m.instruction.isSome then 1 else 0

/-- The instruction of a call of `step` is counted, with a cycle for it and one for
each tick that the guest sleeps. -/
theorem counted_step (m : Machine κ) :
    m.debugger.Counted m.executes (m.executes + m.slept.toNat) m.step.2.debugger := by
  rw [debugger_step, stepWork, executes, slept]
  cases hhalted : m.cpu.halted with
  | true =>
      rw [instruction_of_idle (executing_of_stopped hhalted)]
      exact .nothing ⟨rfl, rfl⟩
  | false =>
      show m.debugger.Counted _ _ ((m.debugger.pauseBefore m.cpu.pc).2.after _)
      rw [pauseBefore_of_running hhalted]
      cases hpauses : m.pauses with
      | true =>
          rw [instruction_of_idle (executing_of_held hpauses)]
          exact .nothing (m.debugger.counters_hold m.cpu.pc)
      | false =>
          have hrelease : m.debugger.Counted 0 0 m.released.debugger :=
            .nothing m.debugger.counters_release
          cases m.instruction with
          | none => exact hrelease
          | some i =>
              have hcall := counted_callWork m i m.released.debugger
              have hretire := counted_retireWork m i (m.released.debugger.after (m.callWork i))
              show m.debugger.Counted _ _
                (m.released.debugger.after (m.callWork i ++ m.retireWork i))
              rw [Debugger.after_append, Nat.add_comm]
              simp only [Option.some.injEq]
              exact hrelease.after_nothing (hcall.trans hretire)

end Machine

/-! ## What happened in the past -/

/-- How much time passed, as the guest, its instructions and its host made it. -/
structure Tally where
  /-- Executed instructions. -/
  instructions : Nat := 0
  /-- Ticks that the guest slept. -/
  slept : Nat := 0
  /-- Ticks by which the host advanced the timer. -/
  advanced : Nat := 0

/-- What passed since the machine was made or reset, after one more call. -/
def Act.tallied {κ : Type} [Console κ] (t : Tally) : Act κ → Tally
  | .step on => { t with
      instructions := t.instructions + on.executes
      slept := t.slept + on.slept.toNat }
  | .other .reset => {}
  | .other op => { t with advanced := t.advanced + op.ticks.toNat }

/-- What passed in a chronicle. -/
def tally {κ : Type} [Console κ] (acts : List (Act κ)) : Tally := acts.foldl Act.tallied {}

section Past

variable {κ : Type} [Console κ]

theorem tally_concat (acts : List (Act κ)) (act : Act κ) :
    tally (acts ++ [act]) = act.tallied (tally acts) := by
  rw [tally, List.foldl_append]
  rfl

theorem tallied_other {t : Tally} {op : Operation κ} (hreset : op ≠ .reset) :
    (Act.other op).tallied t = { t with advanced := t.advanced + op.ticks.toNat } := by
  cases op with
  | reset => exact absurd rfl hreset
  | _ => rfl

/-- A host of whose operations none lets ticks pass advances the timer by nothing. -/
theorem advanced_tally {acts : List (Act κ)} (h : ∀ op, .other op ∈ acts → op.ticks = 0) :
    (tally acts).advanced = 0 := by
  induction acts using List.reverseRecOn with
  | nil => rfl
  | append_singleton acts act ih =>
      have hbefore := ih fun op hmem => h op (List.mem_append_left _ hmem)
      have hlast : act ∈ acts ++ [act] := List.mem_append_right _ (List.mem_singleton_self act)
      rw [tally_concat]
      cases act with
      | step on => exact hbefore
      | other op =>
          by_cases hreset : op = .reset
          · subst hreset
            rfl
          · rw [tallied_other hreset, h op hlast]
            exact hbefore

end Past

namespace Machine

variable {κ : Type} [Console κ] {m : Machine κ}

/-! ## Counters and past -/

/-- The counters have what passed, modulo their size. -/
structure Counts (t : Tally) (m : Machine κ) : Prop where
  instructions : m.debugger.instructions = UInt64.ofNat t.instructions
  cycles : m.debugger.cycles = UInt64.ofNat (t.instructions + t.slept)
  ticks : m.timer.ticks = UInt64.ofNat (t.slept + t.advanced)

namespace Counts

variable {t : Tally}

omit [Console κ] in
theorem new (config : Config) (console : κ) : Counts {} (Machine.new config console) :=
  ⟨rfl, rfl, rfl⟩

/-- A call of `step` adds to the counters what it adds to the sums. -/
theorem step (h : Counts t m) : Counts ((Act.step m).tallied t) m.step.2 := by
  have hcounted := counted_step m
  have hcycles : t.instructions + t.slept + (m.executes + m.slept.toNat) =
      t.instructions + m.executes + (t.slept + m.slept.toNat) := by omega
  have hticks : t.slept + t.advanced + m.slept.toNat =
      t.slept + m.slept.toNat + t.advanced := by omega
  refine ⟨?_, ?_, ?_⟩
  · rw [hcounted.instructions, h.instructions, ← UInt64.ofNat_add]
    rfl
  · rw [hcounted.cycles, h.cycles, ← UInt64.ofNat_add, hcycles]
    rfl
  · rw [ticks_step, h.ticks, ← UInt64.ofNat_uInt32ToNat, ← UInt64.ofNat_add, hticks]
    rfl

/-- Another operation adds to the ticks alone, unless it is a reset. -/
theorem other (h : Counts t m) {op : Operation κ} (hop : op.isStepping = false) :
    Counts ((Act.other op).tallied t) (m.perform op).2 := by
  by_cases hreset : op = .reset
  · subst hreset
    exact ⟨rfl, rfl, rfl⟩
  · have hframed := framed_perform (m := m) hop hreset
    obtain ⟨hinstructions, hcycles⟩ := hframed.counters hreset
    rw [tallied_other hreset]
    refine ⟨hinstructions.trans h.instructions, hcycles.trans h.cycles, ?_⟩
    rw [hframed.ticks, h.ticks, ← Nat.add_assoc, UInt64.ofNat_add _ op.ticks.toNat,
      UInt64.ofNat_toNat]

/-- A history keeps the counters in line with what passed in its chronicle. -/
theorem after (config : Config) (console : κ) (history : List (Operation κ)) :
    Counts (tally ((Machine.new config console).chronicle history))
      ((Machine.new config console).after history) := by
  refine chronicle_keeps (P := fun acts m => Counts (tally acts) m) ?_ ?_ history [] _
    (new config console)
  · intro acts m h
    rw [tally_concat]
    exact h.step
  · intro acts m op hop h
    rw [tally_concat]
    exact h.other hop

omit [Console κ] in
/-- Without ticks that the host let pass, a cycle is an instruction or a tick. -/
theorem cycles_eq (h : Counts t m) (hadvanced : t.advanced = 0) :
    m.debugger.cycles = m.debugger.instructions + m.timer.ticks := by
  rw [h.cycles, h.instructions, h.ticks, hadvanced, Nat.add_zero, UInt64.ofNat_add]

end Counts

/-! ## Main result -/

/-- **The counters tell the time.**  After any history of a new machine, with pauses,
faults, failed calls to the host and guests that stop, the counters have what passed
since the machine was made or last reset, modulo their size.  The one has the number
of executed instructions.  The timer has the ticks that the guest slept and those by
which the host advanced it.  And the cycles are those of the instructions, with one for
each tick that the guest slept.

So cycles are instructions and ticks, as long as the host advances the timer by
nothing, and in particular if it never does.

What counts as executed is said of every machine on which `step` is called: nothing, if
the guest has stopped, a breakpoint holds it or the call ends in a fault, and otherwise
the instruction of the word at the program counter. -/
theorem counters_tell_time (config : Config) (console : κ) (history : List (Operation κ)) :
    let m := (Machine.new config console).after history
    let t := tally ((Machine.new config console).chronicle history)
    (m.debugger.instructions.toNat = t.instructions % 2 ^ 64 ∧
      m.timer.ticks.toNat = (t.slept + t.advanced) % 2 ^ 64 ∧
      m.debugger.cycles.toNat = (t.instructions + t.slept) % 2 ^ 64) ∧
    (t.advanced = 0 → m.debugger.cycles = m.debugger.instructions + m.timer.ticks) ∧
    ((∀ ticks, .advanceTimer ticks ∉ history) →
      m.debugger.cycles = m.debugger.instructions + m.timer.ticks) ∧
    ∀ on : Machine κ,
      (on.instruction = none ↔
        on.cpu.halted = true ∨ on.pauses = true ∨ ∃ f, on.step.1 = .error f) ∧
      ∀ i, on.instruction = some i →
        ∃ word, on.memory.readWord on.cpu.pc .fetching = .ok word ∧
          Instruction.decode word = .ok i := by
  intro m t
  have h : Counts t m := .after config console history
  refine ⟨⟨?_, ?_, ?_⟩, h.cycles_eq, fun hnever => h.cycles_eq (advanced_tally ?_), fun on =>
    ⟨instruction_eq_none_iff, fun i hi => fetch_of_instruction hi⟩⟩
  · rw [h.instructions]
    exact UInt64.toNat_ofNat'
  · rw [h.ticks]
    exact UInt64.toNat_ofNat'
  · rw [h.cycles]
    exact UInt64.toNat_ofNat'
  · intro op hmem
    have hop := mem_of_mem_chronicle hmem
    cases op with
    | advanceTimer ticks => exact absurd hop (hnever ticks)
    | _ => rfl

end Machine

end SandboxCpu
