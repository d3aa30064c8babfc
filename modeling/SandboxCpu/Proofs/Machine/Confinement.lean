import SandboxCpu.Proofs.Debugger.Counters
import SandboxCpu.Proofs.Machine.Calls

/-!
# What the guest cannot reach

Whatever a guest does, it changes memory only where the page table lets it
write, and it changes neither the page table nor anything else that its host
has set: the frame pointer, the configuration, the extent of the heap, and the
settings of the debugger.

The proof has one fact for each part of a step.  Apart from calls to the host
an instruction is *local*: it leaves everything but processor and memory alone,
keeps the frame pointer, and writes memory at most through the permission check
(`Machine.Local`).  A call to the host writes memory in one place only, where it
stores what the console returned, and that write is checked again for the bytes
really there, so that a console which returns too much gains nothing.

`Machine.Confined` collects what is kept.  It is reflexive and transitive, so it
goes from one step to a run of any length.
-/

namespace SandboxCpu

namespace Debugger

/-- What a host sets at a debugger. -/
structure Setting where
  enabled : Bool
  singleStep : Bool
  breakpoints : List UInt32
  capacity : Nat
  deriving DecidableEq

/-- The settings of a debugger. -/
def setting (d : Debugger) : Setting := ⟨d.enabled, d.singleStep, d.breakpoints, d.capacity⟩

@[simp] theorem setting_record (d : Debugger) (e : Event) : (d.record e).setting = d.setting := by
  unfold record
  split <;> rfl

@[simp] theorem resume_record (d : Debugger) (e : Event) : (d.record e).resume = d.resume := by
  unfold record
  split <;> rfl

@[simp] theorem setting_hold (d : Debugger) (pc : UInt32) : (d.hold pc).setting = d.setting := by
  rw [hold, setting_record]
  rfl

@[simp] theorem setting_release (d : Debugger) : d.release.setting = d.setting := by
  unfold release
  split <;> rfl

end Debugger

namespace Machine

variable {κ : Type}

/-! ## Instructions other than calls to the host -/

/-- An effect on nothing but the processor, its frame pointer apart, and on bytes
that may be written. -/
structure Local (m n : Machine κ) : Prop where
  /-- All but processor and memory is the same. -/
  rest : n = { m with cpu := n.cpu, memory := n.memory }
  fp : n.cpu.fp = m.cpu.fp
  /-- Memory changed only where it may be written. -/
  memory : m.memory.Confines n.memory

namespace Local

variable {m n : Machine κ}

theorem refl (m : Machine κ) : Local m m := ⟨rfl, rfl, .refl _⟩

theorem withCpu {c : Cpu} (hfp : c.fp = m.cpu.fp) : Local m (m.withCpu c) :=
  ⟨rfl, hfp, .refl _⟩

theorem of_pushWord {value : UInt32} (h : m.pushWord value = .ok n) : Local m n := by
  unfold pushWord at h
  cases hwrite : m.memory.writeWord (m.cpu.sp - 4) value .writing with
  | error e => simp only [hwrite] at h; cases h
  | ok memory =>
      simp only [hwrite] at h
      cases h
      exact ⟨rfl, rfl, .of_write hwrite⟩

theorem of_executeRegister {pc : UInt32} {op : RegisterOp} {r : RegisterArgs}
    (h : m.executeRegister pc op r = .ok n) : Local m n := by
  cases op
  case div | mod =>
    simp only [executeRegister] at h
    split at h
    · cases h
    · cases h
      exact withCpu rfl
  case load | loadb | pop =>
    simp only [executeRegister] at h
    split at h
    · cases h
    · cases h
      exact withCpu rfl
  case store | storeb =>
    simp only [executeRegister] at h
    split at h
    · cases h
    · rename_i memory hwrite
      cases h
      exact ⟨rfl, rfl, .of_write hwrite⟩
  case push =>
    simp only [executeRegister] at h
    split at h
    · cases h
    · rename_i m' hpush
      cases h
      exact of_pushWord hpush
  all_goals
    simp only [executeRegister] at h
    cases h
    exact withCpu rfl

theorem of_executeImmediate (m : Machine κ) (op : ImmediateOp) (args : ImmediateArgs) :
    Local m (m.executeImmediate op args) := by
  cases op <;> exact withCpu rfl

theorem of_executeJump {pc : UInt32} {op : JumpOp} {args : JumpArgs} {flow : Flow}
    (h : m.executeJump pc op args = .ok (flow, n)) : Local m n := by
  cases op
  case call =>
    simp only [executeJump] at h
    split at h
    · cases h
    · rename_i m' hpush
      cases h
      exact of_pushWord hpush
  all_goals
    simp only [executeJump] at h
    cases h
    exact refl m

theorem of_executeBare [Console κ] {pc : UInt32} {op : BareOp} {flow : Flow}
    (h : m.executeBare pc op = .ok (flow, n)) (hop : op ≠ .syscall) : Local m n := by
  cases op with
  | nop =>
      cases h
      exact refl m
  | halt =>
      cases h
      exact withCpu rfl
  | ret =>
      simp only [executeBare] at h
      split at h
      · cases h
      · cases h
        exact withCpu rfl
  | syscall => exact absurd rfl hop

/-- Every instruction but a call to the host is local. -/
theorem of_execute [Console κ] {pc : UInt32} {i : Instruction} {flow : Flow}
    (h : m.execute pc i = .ok (flow, n)) (hi : i ≠ .bare .syscall) : Local m n := by
  cases i with
  | bare op => exact of_executeBare h fun hop => hi (congrArg Instruction.bare hop)
  | register op args =>
      simp only [execute] at h
      cases hop : m.executeRegister pc op args with
      | error e => rw [hop] at h; cases h
      | ok m' =>
          rw [hop] at h
          cases h
          exact of_executeRegister hop
  | immediate op args =>
      cases h
      exact of_executeImmediate m op args
  | jump op args => exact of_executeJump h

end Local

/-! ## Calls to the host -/

section HostCalls

variable [Console κ]

/-- What the host does to a machine to serve a call, register 0 apart. -/
inductive Served (m : Machine κ) (call : SystemCall) : Machine κ → Prop
  /-- The guest is stopped. -/
  | exits (hnumber : call.number = 1) : Served m call (m.exitCall call.arg0)
  /-- The console is asked, and no more than that. -/
  | asks (hnumber : call.number = 2 ∨ call.number = 3) (console : κ) :
      Served m call { m with console }
  /-- What the console returned is stored, and just that is checked: it does not
  matter how much it is. -/
  | stores (hnumber : call.number = 3) (console : κ) {line : List UInt8} {memory : Memory}
      (hwrite : m.memory.write call.arg0 line .writing = .ok memory) :
      Served m call { m with console, memory }
  | sleeps (hnumber : call.number = 5) : Served m call (m.sleepCall call.arg0)
  | allocates (hnumber : call.number = 6) : Served m call (m.alloc call.arg0).2
  | idles (hnumber : call.number ≠ 5 ∧ call.number ≠ 6) : Served m call m

/-- That is all that the host does. -/
theorem served (m : Machine κ) (call : SystemCall) : Served m call (m.serve call).2 := by
  unfold serve
  split
  · exact .exits ‹_›
  split
  · rename_i h2
    unfold printCall
    split
    · exact .asks (.inl h2) m.console
    · split <;> exact .asks (.inl h2) _
  split
  · rename_i h3
    unfold readCall
    split
    · split
      · exact .asks (.inr h3) _
      · split
        · exact .asks (.inr h3) _
        · exact .stores h3 _ ‹_›
    · exact .asks (.inr h3) m.console
  split
  · rename_i h4
    exact .idles (by rw [h4]; decide)
  split
  · exact .sleeps ‹_›
  split
  · exact .allocates ‹_›
  split
  · exact .idles ⟨‹_›, ‹_›⟩
  split <;> exact .idles ⟨‹_›, ‹_›⟩

/-- A call to the host tells debugger and timer of nothing but slept ticks. -/
theorem slept_serve (m : Machine κ) (call : SystemCall) :
    ((m.serve call).2.debugger =
        if call.number = 5 then m.debugger.addCycles call.arg0.toUInt64 else m.debugger) ∧
      (m.serve call).2.timer =
        if call.number = 5 then m.timer.advance call.arg0.toUInt64 else m.timer := by
  have hserved := served m call
  generalize (m.serve call).2 = n at hserved ⊢
  by_cases hnumber : call.number = 5
  · rw [if_pos hnumber, if_pos hnumber]
    cases hserved with
    | sleeps => exact ⟨rfl, rfl⟩
    | asks h => rcases h with h | h <;> cases hnumber.symm.trans h
    | exits h | stores h | allocates h => cases hnumber.symm.trans h
    | idles h => exact absurd hnumber h.1
  · rw [if_neg hnumber, if_neg hnumber]
    cases hserved with
    | sleeps h => exact absurd h hnumber
    | exits | asks | stores | allocates | idles => exact ⟨rfl, rfl⟩

/-- The debugger hears of slept cycles. -/
theorem debugger_serve (m : Machine κ) (call : SystemCall) :
    (m.serve call).2.debugger =
      if call.number = 5 then m.debugger.addCycles call.arg0.toUInt64 else m.debugger :=
  (slept_serve m call).1

/-- The timer hears of slept ticks. -/
theorem timer_serve (m : Machine κ) (call : SystemCall) :
    (m.serve call).2.timer =
      if call.number = 5 then m.timer.advance call.arg0.toUInt64 else m.timer :=
  (slept_serve m call).2

/-- A call to the host leaves the debugger's settings, its resume marker and its
count of instructions. -/
theorem kept_callHost (m : Machine κ) :
    m.callHost.debugger.setting = m.debugger.setting ∧
      m.callHost.debugger.resume = m.debugger.resume ∧
      m.callHost.debugger.instructions = m.debugger.instructions := by
  have hrecord := fun e => (m.debugger.counters_record e).1
  unfold callHost
  simp only [debugger_serve]
  split
  · exact ⟨Debugger.setting_record _ _, Debugger.resume_record _ _, hrecord _⟩
  · exact ⟨Debugger.setting_record _ _, Debugger.resume_record _ _, hrecord _⟩

/-- So does every instruction. -/
theorem kept_attempt {m n : Machine κ} {pc word : UInt32} {flow : Flow}
    (h : m.attempt pc = .ok (word, flow, n)) :
    n.debugger.setting = m.debugger.setting ∧
      n.debugger.resume = m.debugger.resume ∧
      n.debugger.instructions = m.debugger.instructions := by
  obtain ⟨-, i, -, hexecute⟩ := of_attempt h
  by_cases hi : i = .bare .syscall
  · subst hi
    cases hexecute
    exact kept_callHost m
  · have hrest := (Local.of_execute hexecute hi).rest
    rw [hrest]
    exact ⟨rfl, rfl, rfl⟩

/-- Whether execution pauses after it was settled before it. -/
theorem isSingleStep_attempt {m n : Machine κ} {pc word : UInt32} {flow : Flow}
    (h : m.released.attempt pc = .ok (word, flow, n)) :
    n.debugger.isSingleStep = m.debugger.isSingleStep := by
  have hsetting := (kept_attempt h).1
  rw [released, Debugger.setting_release] at hsetting
  exact congrArg (fun s : Debugger.Setting => s.enabled && s.singleStep) hsetting

end HostCalls

/-! ## What no step can reach -/

/-- Nothing changed from `m` to `m'` that is out of the guest's reach. -/
structure Confined (m m' : Machine κ) : Prop where
  /-- Memory changed only where it may be written, and the page table not at all. -/
  memory : m.memory.Confines m'.memory
  fp : m'.cpu.fp = m.cpu.fp
  config : m'.config = m.config
  heapBase : m'.heap.base = m.heap.base
  heapSize : m'.heap.size = m.heap.size
  setting : m'.debugger.setting = m.debugger.setting

namespace Confined

variable {m m' m'' : Machine κ}

theorem refl (m : Machine κ) : Confined m m := ⟨.refl _, rfl, rfl, rfl, rfl, rfl⟩

theorem trans (h : Confined m m') (h' : Confined m' m'') : Confined m m'' where
  memory := h.memory.trans h'.memory
  fp := h'.fp.trans h.fp
  config := h'.config.trans h.config
  heapBase := h'.heapBase.trans h.heapBase
  heapSize := h'.heapSize.trans h.heapSize
  setting := h'.setting.trans h.setting

theorem of_local (h : Local m m') : Confined m m' := by
  have hrest := h.rest
  refine ⟨h.memory, h.fp, ?_, ?_, ?_, ?_⟩ <;> rw [hrest]

theorem alloc (m : Machine κ) (size : UInt32) : Confined m (m.alloc size).2 :=
  { refl m with
    heapBase := Heap.base_alloc m.heap size
    heapSize := Heap.size_alloc m.heap size }

theorem retire (m : Machine κ) (pc word : UInt32) (flow : Flow) :
    Confined m (m.retire pc word flow).2 := by
  unfold Machine.retire
  dsimp only
  split
  · exact { refl m with setting := Debugger.setting_record _ _ }
  · split
    · exact { refl m with setting := Debugger.setting_record _ _ }
    · exact { refl m with }

variable [Console κ]

theorem serve (m : Machine κ) (call : SystemCall) : Confined m (m.serve call).2 := by
  have hserved := served m call
  generalize (m.serve call).2 = n at hserved ⊢
  cases hserved with
  | exits | asks | sleeps => exact { refl m with }
  | stores hnumber console hwrite => exact { refl m with memory := .of_write hwrite }
  | allocates => exact alloc m _
  | idles => exact refl m

theorem callHost (m : Machine κ) : Confined m m.callHost := by
  have hrecord : Confined m
      { m with debugger := m.debugger.record (.syscall m.systemCall.number) } :=
    { refl m with setting := Debugger.setting_record _ _ }
  have hserve := hrecord.trans (serve _ m.systemCall)
  exact { hserve with }

theorem execute {pc : UInt32} {i : Instruction} {flow : Flow}
    (h : m.execute pc i = .ok (flow, m')) : Confined m m' := by
  by_cases hi : i = .bare .syscall
  · subst hi
    cases h
    exact callHost m
  · exact of_local (.of_execute h hi)

theorem attempt {pc word : UInt32} {flow : Flow}
    (h : m.attempt pc = .ok (word, flow, m')) : Confined m m' := by
  obtain ⟨-, i, -, hexecute⟩ := of_attempt h
  exact execute hexecute

/-- One call of `step` stays within the guest's reach, however it ends. -/
theorem step (m : Machine κ) : Confined m m.step.2 := by
  have hreleased : Confined m m.released :=
    { refl m with setting := Debugger.setting_release _ }
  cases m.situation with
  | stopped hhalted =>
      rw [step_of_halted hhalted]
      exact { refl m with }
  | held hpauses =>
      rw [step_of_pauses hpauses]
      exact { refl m with setting := Debugger.setting_hold _ _ }
  | failed hhalted hpauses hattempt =>
      rw [step_of_fault hhalted hpauses hattempt]
      exact { hreleased with }
  | done hhalted hpauses hattempt =>
      rw [step_of_success hhalted hpauses hattempt]
      exact { (hreleased.trans (attempt hattempt)).trans (retire _ m.cpu.pc _ _) with }

/-- So does a run. -/
theorem stepped (n : Nat) (m : Machine κ) : Confined m (m.stepped n) := by
  induction n with
  | zero => exact refl m
  | succ n ih =>
      rw [stepped_succ]
      exact ih.trans (step _)

end Confined

/-! ## Main result -/

/-- **The guest is confined.**  Over any number of calls of `step`, whatever the
guest does and whatever the console answers, a byte on a page that is not
present or not writable keeps its value, and the page table, the frame pointer,
the configuration, the extent of the heap and the debugger's settings are what
they were.

So when no page is both writable and executable, as in the first layout, the
guest executes nothing that it has written: each word that the run executes
consists of bytes that still have their first values. -/
theorem guest_confined [Console κ] (m : Machine κ) (n : Nat) :
    (∀ a, ¬ ((m.memory.protectionAt a).present = true ∧
        (m.memory.protectionAt a).write = true) →
      (m.stepped n).memory.byteAt a = m.memory.byteAt a) ∧
    (∀ page, (m.stepped n).memory.protection page = m.memory.protection page) ∧
    (m.stepped n).cpu.fp = m.cpu.fp ∧
    (m.stepped n).config = m.config ∧
    (m.stepped n).heap.base = m.heap.base ∧
    (m.stepped n).heap.size = m.heap.size ∧
    (m.stepped n).debugger.breakpoints = m.debugger.breakpoints ∧
    (m.stepped n).debugger.enabled = m.debugger.enabled ∧
    (m.stepped n).debugger.singleStep = m.debugger.singleStep ∧
    (m.memory.Separated → ∀ e, (m.stepped n).executing = some e →
      e.word = m.memory.wordAt e.pc.toNat ∧
        ∀ i < 4, (m.stepped n).memory.byteAt (e.pc.toNat + i) =
          m.memory.byteAt (e.pc.toNat + i)) ∧
    Memory.initial.Separated := by
  have h := Confined.stepped n m
  have hsetting := h.setting
  simp only [Debugger.setting, Debugger.Setting.mk.injEq] at hsetting
  obtain ⟨henabled, hsingle, hbreakpoints, -⟩ := hsetting
  refine ⟨fun a ha => ?_, Memory.protection_congr h.memory.protectionAt_eq, h.fp, h.config,
    h.heapBase, h.heapSize, hbreakpoints, henabled, hsingle, fun hsep e he => ?_,
    Memory.separated_initial⟩
  · apply h.memory.byteAt_eq
    rw [Memory.grants_writing_iff]
    exact ha
  · obtain ⟨hpc, hfetch⟩ := fetch_of_executing he
    rw [hpc]
    exact h.memory.fetched hsep (readWord_of_fetch hfetch)

end Machine

end SandboxCpu
