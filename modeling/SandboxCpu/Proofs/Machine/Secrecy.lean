import SandboxCpu.Machine.Operation
import SandboxCpu.Proofs.Machine.Lockstep

/-!
# What the guest cannot see

Two machines that are the same but for bytes behind pages that are not present
or not readable go through the same calls of `step`: with the same answers, the
same processor state, the same words on the console and the same trace.  The
bytes that differ stay where they were; none of them ever reaches a readable
page, a register or the console.

This is a statement about two runs, and it rests on the likeness of machines
that share everything but some bytes (`Likeness.unread`).  They have the same
debugger, so that each call of `step` respects the likeness; what is left is to say
that they are alike to begin with, and what it means for them to be so at the end.

A guest may write to a page that it cannot read.  Both machines then write the
same bytes to the same places, so that the difference can only shrink.

## Main results

* `ReadAlike.step` — one call answers alike and keeps the machines alike.
* `unreadable_unseen` — so does any number of calls.
-/

namespace SandboxCpu

/-- To grant reading is to be present and readable. -/
theorem Memory.grants_reading_iff {m : Memory} {a : Nat} :
    m.Grants .reading a ↔
      (m.protectionAt a).present = true ∧ (m.protectionAt a).read = true := by
  unfold Grants
  rcases m.protectionAt a with ⟨p, r, w, x⟩
  simp [Protection.contains, Protection.union, Protection.reading, Protection.presence]

/-- The likeness of machines that share everything but the bytes outside a set of
addresses. -/
def Likeness.unread (κ : Type) [Console κ] (visible : Nat → Prop) : Likeness κ κ where
  console c c' := c = c'
  visible := visible
  debugger d d' := d' = d
  write := by
    rintro c _ rfl bytes
    exact ⟨rfl, rfl⟩
  readLine := by
    rintro c _ rfl limit
    exact ⟨rfl, rfl⟩
  record := by
    rintro d _ rfl e
    rfl
  addCycles := by
    rintro d _ rfl n
    rfl
  countInstruction := by
    rintro d _ rfl
    rfl

theorem Likeness.sharesDebugger_unread (κ : Type) [Console κ] (visible : Nat → Prop) :
    (unread κ visible).SharesDebugger := fun _ _ => Iff.rfl

namespace Machine

variable {κ : Type} [Console κ] {visible : Nat → Prop} {m m' : Machine κ}

/-- The machines are the same but for bytes that are not visible, and all that
the guest may read is visible. -/
structure ReadAlike (visible : Nat → Prop) (m m' : Machine κ) : Prop where
  alike : (Likeness.unread κ visible).Alike m m'
  phase : m'.phase = m.phase

namespace ReadAlike

/-- One call answers alike on both machines and leaves them alike. -/
theorem step (h : ReadAlike visible m m') :
    m'.step.1 = m.step.1 ∧ ReadAlike visible m.step.2 m'.step.2 := by
  obtain ⟨hanswer, halike⟩ := h.alike.step (Likeness.sharesDebugger_unread κ visible)
  refine ⟨hanswer, halike, ?_⟩
  rw [phase_step, phase_step, hanswer]

/-- So does any number of calls. -/
theorem stepped (h : ReadAlike visible m m') (n : Nat) :
    ReadAlike visible (m.stepped n) (m'.stepped n) := by
  induction n with
  | zero => exact h
  | succ n ih =>
      rw [stepped_succ, stepped_succ]
      exact ih.step.2

end ReadAlike

/-! ## Main result -/

/-- **What may not be read is not seen.**  Let two machines be the same but for
bytes on pages that are not present or not readable.  After any number of calls
of `step` the next call has the same answer on both, with the same fault if it
is one; processor, exit code, heap, timer, debugger with its counters and
events, trace and console are the same; and the memories still differ in nothing
but bytes on such pages. -/
theorem unreadable_unseen (hrest : m' = { m with memory := m'.memory })
    (hprotection : ∀ a, m'.memory.protectionAt a = m.memory.protectionAt a)
    (hbyte : ∀ a, (m.memory.protectionAt a).present = true →
      (m.memory.protectionAt a).read = true → m'.memory.byteAt a = m.memory.byteAt a)
    (n : Nat) :
    (m'.stepped n).step.1 = (m.stepped n).step.1 ∧
    (m'.stepped n).cpu = (m.stepped n).cpu ∧
    (m'.stepped n).exitCode = (m.stepped n).exitCode ∧
    (m'.stepped n).heap = (m.stepped n).heap ∧
    (m'.stepped n).timer = (m.stepped n).timer ∧
    (m'.stepped n).debugger = (m.stepped n).debugger ∧
    (m'.stepped n).phase = (m.stepped n).phase ∧
    Ring.toList (m'.stepped n).tracer = Ring.toList (m.stepped n).tracer ∧
    Tracer.log (m'.stepped n).tracer = Tracer.log (m.stepped n).tracer ∧
    (m'.stepped n).console = (m.stepped n).console ∧
    (m'.stepped n).config = (m.stepped n).config ∧
    (∀ a, (m'.stepped n).memory.protectionAt a = (m.stepped n).memory.protectionAt a) ∧
    ∀ a, ((m.stepped n).memory.protectionAt a).present = true →
      ((m.stepped n).memory.protectionAt a).read = true →
      (m'.stepped n).memory.byteAt a = (m.stepped n).memory.byteAt a := by
  have hmemory : Memory.AgreesOn (m.memory.Grants .reading) m.memory m'.memory := by
    refine ⟨hprotection, fun a ha => ha, fun a ha => ?_⟩
    obtain ⟨hpresent, hread⟩ := Memory.grants_reading_iff.mp ha
    exact hbyte a hpresent hread
  have halike : ReadAlike (m.memory.Grants .reading) m m' := by
    rw [hrest]
    exact ⟨⟨rfl, hmemory, rfl, rfl, rfl, rfl, rfl, rfl, rfl, rfl⟩, rfl⟩
  have hn := halike.stepped n
  have hlog : Tracer.log (m'.stepped n).tracer = Tracer.log (m.stepped n).tracer := by
    rw [Tracer.log, Tracer.log, hn.alike.trace]
  refine ⟨hn.step.1, hn.alike.cpu, hn.alike.exitCode, hn.alike.heap, hn.alike.timer,
    hn.alike.debugger, hn.phase, hn.alike.trace, hlog, hn.alike.console.symm, hn.alike.config,
    hn.alike.memory.protectionAt_eq, fun a hpresent hread => ?_⟩
  have hgrants := Memory.grants_reading_iff.mpr ⟨hpresent, hread⟩
  exact hn.alike.memory.byteAt_eq a (hn.alike.memory.visible_of_reading a hgrants)

/-- A machine about to load the first byte of the gap below the stack, which is
not present. -/
def curious : Machine QueueConsole :=
  (Machine.new {} {}).after [.load 0 (LittleEndian.bytes 0x32123000), .setReg 2 0xC000]

/-- The same machine with another byte there. -/
def curious' : Machine QueueConsole :=
  { curious with memory := curious.memory.setByte 0xC000 7 }

/-- It does not learn the byte: the load fails whatever it is, and so does all
that comes after. -/
theorem unreadable_unseen_curious :
    curious'.memory.byteAt 0xC000 ≠ curious.memory.byteAt 0xC000 ∧
      curious.step.1.isOk = false ∧
      ∀ n, (curious'.stepped n).step.1 = (curious.stepped n).step.1 := by
  have hgap : (curious.memory.protectionAt 0xC000).present = false := by decide +kernel
  have hzero : curious.memory.byteAt 0xC000 = 0 := by decide +kernel
  have hbyte : ∀ a, (curious.memory.protectionAt a).present = true →
      (curious.memory.protectionAt a).read = true →
      curious'.memory.byteAt a = curious.memory.byteAt a := by
    intro a hpresent _
    rw [curious', Memory.byteAt_setByte, if_neg]
    rintro ⟨rfl, -⟩
    rw [hgap] at hpresent
    cases hpresent
  refine ⟨?_, by decide +kernel, fun n => ?_⟩
  · rw [hzero, curious', Memory.byteAt_setByte]
    decide
  · exact (unreadable_unseen rfl (fun a => Memory.protectionAt_setByte _ _ a _) hbyte n).1

end Machine

end SandboxCpu
