import SandboxCpu.Proofs.Machine.Transaction
import SandboxCpu.Proofs.Memory.Permission

/-!
# Machines that the guest cannot tell apart

Two machines may differ in what a guest has no way to see: in the debugger's
settings, in bytes that may not be read, in how a console keeps the lines it
has yet to hand out.  This module says once and for all that such machines
execute an instruction alike.

A `Likeness` fixes what may differ.  It relates consoles, debuggers and the
visible part of memory, and carries the proofs that whatever the guest does to
both sides keeps them related.  `Likeness.Alike` is the relation between
machines that it gives, and `Likeness.Alike.attempt` the one statement that
later modules need: fetching, decoding and executing the next instruction ends
in the same fault, or in the same word, the same flow and machines that are
again alike.

The case analysis over the instruction table is done here and nowhere else.
-/

namespace SandboxCpu

/-- What two machines may differ in without the guest noticing. -/
structure Likeness (κ κ' : Type) [Console κ] [Console κ'] where
  /-- Which consoles answer alike. -/
  console : κ → κ' → Prop
  /-- Which bytes of memory are the same. -/
  visible : Nat → Prop
  /-- Which debuggers keep the same account of the guest. -/
  debugger : Debugger → Debugger → Prop
  /-- Related consoles answer a write alike and stay related. -/
  write : ∀ {c c'}, console c c' → ∀ bytes,
    (Console.write c' bytes).1 = (Console.write c bytes).1 ∧
      console (Console.write c bytes).2 (Console.write c' bytes).2
  /-- Related consoles give the same line and stay related. -/
  readLine : ∀ {c c'}, console c c' → ∀ limit,
    (Console.readLine c' limit).1 = (Console.readLine c limit).1 ∧
      console (Console.readLine c limit).2 (Console.readLine c' limit).2
  /-- Debuggers stay related when both note an event. -/
  record : ∀ {d d'}, debugger d d' → ∀ e, debugger (d.record e) (d'.record e)
  /-- Debuggers stay related when both count cycles. -/
  addCycles : ∀ {d d'}, debugger d d' → ∀ n, debugger (d.addCycles n) (d'.addCycles n)
  /-- Debuggers stay related when both count an instruction. -/
  countInstruction : ∀ {d d'}, debugger d d' →
    debugger d.countInstruction d'.countInstruction

namespace Machine

variable {κ : Type}

/-- The machine after a success, before debugger and phase say how it ended: the
program counter has moved on, and debugger and tracer have taken note. -/
def advance (m : Machine κ) (pc word : UInt32) (flow : Flow) : Machine κ :=
  { m with
    cpu := { m.cpu with pc := flow.nextPc pc }
    debugger := m.debugger.countInstruction
    tracer := Tracer.trace m.tracer pc word }

end Machine

namespace Likeness

variable {κ κ' : Type} [Console κ] [Console κ'] (L : Likeness κ κ')

/-- Machines that differ in nothing but what the likeness allows. -/
structure Alike (m : Machine κ) (m' : Machine κ') : Prop where
  cpu : m'.cpu = m.cpu
  memory : Memory.AgreesOn L.visible m.memory m'.memory
  heap : m'.heap = m.heap
  timer : m'.timer = m.timer
  exitCode : m'.exitCode = m.exitCode
  config : m'.config = m.config
  console : L.console m.console m'.console
  debugger : L.debugger m.debugger m'.debugger
  trace : Ring.toList m'.tracer = Ring.toList m.tracer
  traceRoom : Ring.capacity m'.tracer = Ring.capacity m.tracer

namespace Alike

variable {L} {m : Machine κ} {m' : Machine κ'}

/-! ## Changes that keep machines alike -/

theorem withCpu (h : L.Alike m m') (c : Cpu) : L.Alike (m.withCpu c) (m'.withCpu c) :=
  { h with cpu := rfl }

theorem record (h : L.Alike m m') (e : Event) :
    L.Alike { m with debugger := m.debugger.record e }
      { m' with debugger := m'.debugger.record e } :=
  { h with debugger := L.record h.debugger e }

theorem withConsole (h : L.Alike m m') {c : κ} {c' : κ'} (hc : L.console c c') :
    L.Alike { m with console := c } { m' with console := c' } :=
  { h with console := hc }

/-! ## The stack -/

theorem topWord (h : L.Alike m m') : m'.topWord = m.topWord := by
  unfold Machine.topWord
  rw [h.cpu]
  exact h.memory.readWord_eq rfl _

theorem pushWord (h : L.Alike m m') (value : UInt32) :
    Matches L.Alike (m.pushWord value) (m'.pushWord value) := by
  unfold Machine.pushWord
  rw [h.cpu]
  have hwrite := h.memory.write (m.cpu.sp - 4) (LittleEndian.bytes value) .writing
  refine Matches.bind hwrite fun memory memory' hmem => ?_
  exact .ok { h with cpu := rfl, memory := hmem }

/-! ## Instructions -/

theorem executeRegister (h : L.Alike m m') (pc : UInt32) (op : RegisterOp)
    (r : RegisterArgs) :
    Matches L.Alike (m.executeRegister pc op r) (m'.executeRegister pc op r) := by
  cases op
  case div =>
    simp only [Machine.executeRegister, h.cpu]
    split
    · exact .error _
    · exact .ok (h.withCpu _)
  case mod =>
    simp only [Machine.executeRegister, h.cpu]
    split
    · exact .error _
    · exact .ok (h.withCpu _)
  case load =>
    simp only [Machine.executeRegister, h.cpu]
    rw [h.memory.readWord_eq rfl]
    split
    · exact .error _
    · exact .ok (h.withCpu _)
  case loadb =>
    simp only [Machine.executeRegister, h.cpu]
    rw [h.memory.readByte_eq rfl]
    split
    · exact .error _
    · exact .ok (h.withCpu _)
  case store =>
    simp only [Machine.executeRegister, h.cpu]
    obtain ⟨e, hx, hy⟩ | ⟨memory, memory', hx, hy, hmem⟩ :=
      (h.memory.writeWord (m.cpu.reg r.rs1 + m.cpu.reg r.rs2) (m.cpu.reg r.rd) .writing).elim
    · rw [hx, hy]
      exact .error _
    · rw [hx, hy]
      exact .ok { h with cpu := rfl, memory := hmem }
  case storeb =>
    simp only [Machine.executeRegister, h.cpu]
    obtain ⟨e, hx, hy⟩ | ⟨memory, memory', hx, hy, hmem⟩ :=
      (h.memory.writeByte (m.cpu.reg r.rs1 + m.cpu.reg r.rs2) (m.cpu.reg r.rd).toUInt8
        .writing).elim
    · rw [hx, hy]
      exact .error _
    · rw [hx, hy]
      exact .ok { h with cpu := rfl, memory := hmem }
  case push =>
    simp only [Machine.executeRegister, h.cpu]
    obtain ⟨e, hx, hy⟩ | ⟨n, n', hx, hy, hn⟩ := (h.pushWord (m.cpu.reg r.rs1)).elim
    · rw [hx, hy]
      exact .error _
    · rw [hx, hy]
      exact .ok hn
  case pop =>
    simp only [Machine.executeRegister, h.cpu]
    rw [h.topWord]
    split
    · exact .error _
    · exact .ok (h.withCpu _)
  all_goals
    simp only [Machine.executeRegister, h.cpu]
    exact .ok (h.withCpu _)

theorem executeImmediate (h : L.Alike m m') (op : ImmediateOp) (args : ImmediateArgs) :
    L.Alike (m.executeImmediate op args) (m'.executeImmediate op args) := by
  cases op <;> simp only [Machine.executeImmediate, h.cpu] <;> exact h.withCpu _

/-! ## Calls to the host -/

theorem printCall (h : L.Alike m m') (addr size : UInt32) :
    (m'.printCall addr size).1 = (m.printCall addr size).1 ∧
      L.Alike (m.printCall addr size).2 (m'.printCall addr size).2 := by
  unfold Machine.printCall
  rw [h.memory.read_eq rfl]
  split
  · exact ⟨rfl, h⟩
  · rename_i bytes _
    obtain ⟨hanswer, hconsole⟩ := L.write h.console bytes
    generalize Console.write m.console bytes = r at hanswer hconsole
    generalize Console.write m'.console bytes = r' at hanswer hconsole
    obtain ⟨answer, c⟩ := r
    obtain ⟨answer', c'⟩ := r'
    cases hanswer
    cases answer with
    | error e => exact ⟨rfl, h.withConsole hconsole⟩
    | ok _ => exact ⟨rfl, h.withConsole hconsole⟩

theorem readCall (h : L.Alike m m') (addr size : UInt32) :
    (m'.readCall addr size).1 = (m.readCall addr size).1 ∧
      L.Alike (m.readCall addr size).2 (m'.readCall addr size).2 := by
  have hlimit : min size.toNat m'.config.readLimit = min size.toNat m.config.readLimit := by
    rw [h.config]
  unfold Machine.readCall
  rw [Memory.allows_congr h.memory.protectionAt_eq, hlimit]
  split
  · obtain ⟨hanswer, hconsole⟩ := L.readLine h.console (min size.toNat m.config.readLimit)
    generalize Console.readLine m.console _ = r at hanswer hconsole
    generalize Console.readLine m'.console _ = r' at hanswer hconsole
    obtain ⟨answer, c⟩ := r
    obtain ⟨answer', c'⟩ := r'
    cases hanswer
    cases answer with
    | error e => exact ⟨rfl, h.withConsole hconsole⟩
    | ok line =>
        obtain ⟨e, hx, hy⟩ | ⟨memory, memory', hx, hy, hmem⟩ :=
          (h.memory.write addr line .writing).elim
        · simp only [hx, hy, true_and]
          exact h.withConsole hconsole
        · simp only [hx, hy, true_and]
          exact { h with memory := hmem, console := hconsole }
  · exact ⟨rfl, h⟩

theorem alloc (h : L.Alike m m') (size : UInt32) :
    (m'.alloc size).1 = (m.alloc size).1 ∧
      L.Alike (m.alloc size).2 (m'.alloc size).2 := by
  unfold Machine.alloc
  rw [h.heap]
  exact ⟨rfl, { h with heap := rfl }⟩

/-- The host serves alike machines alike. -/
theorem serve (h : L.Alike m m') (call : SystemCall) :
    (m'.serve call).1 = (m.serve call).1 ∧
      L.Alike (m.serve call).2 (m'.serve call).2 := by
  unfold Machine.serve
  split
  · exact ⟨rfl, { h with cpu := by simp only [Machine.exitCall, h.cpu], exitCode := rfl }⟩
  split
  · exact h.printCall _ _
  split
  · exact h.readCall _ _
  split
  · exact ⟨by rw [h.timer], h⟩
  split
  · refine ⟨rfl, { h with timer := ?_, debugger := L.addCycles h.debugger _ }⟩
    simp only [Machine.sleepCall, h.timer]
  split
  · obtain ⟨haddr, hm⟩ := h.alloc call.arg0
    exact ⟨congrArg Except.ok haddr, hm⟩
  split
  · exact ⟨rfl, h⟩
  split
  · exact ⟨rfl, h⟩
  · exact ⟨rfl, h⟩

theorem callHost (h : L.Alike m m') : L.Alike m.callHost m'.callHost := by
  have hcall : m'.systemCall = m.systemCall := by
    simp only [Machine.systemCall, h.cpu]
  obtain ⟨hresult, hm⟩ := (h.record (.syscall m.systemCall.number)).serve m.systemCall
  unfold Machine.callHost
  simp only [hcall, hresult]
  exact { hm with cpu := by rw [hm.cpu] }

/-! ## The step up to its success -/

theorem executeJump (h : L.Alike m m') (pc : UInt32) (op : JumpOp) (args : JumpArgs) :
    Matches (fun r r' => r'.1 = r.1 ∧ L.Alike r.2 r'.2)
      (m.executeJump pc op args) (m'.executeJump pc op args) := by
  cases op
  case call =>
    simp only [Machine.executeJump]
    obtain ⟨e, hx, hy⟩ | ⟨n, n', hx, hy, hn⟩ := (h.pushWord (pc + 4)).elim
    · rw [hx, hy]
      exact .error _
    · rw [hx, hy]
      exact .ok ⟨rfl, hn⟩
  all_goals
    simp only [Machine.executeJump, h.cpu]
    exact .ok ⟨rfl, h⟩

theorem executeBare (h : L.Alike m m') (pc : UInt32) (op : BareOp) :
    Matches (fun r r' => r'.1 = r.1 ∧ L.Alike r.2 r'.2)
      (m.executeBare pc op) (m'.executeBare pc op) := by
  cases op with
  | nop => exact .ok ⟨rfl, h⟩
  | halt =>
      simp only [Machine.executeBare, h.cpu]
      exact .ok ⟨rfl, h.withCpu _⟩
  | ret =>
      simp only [Machine.executeBare, h.cpu]
      rw [h.topWord]
      split
      · exact .error _
      · exact .ok ⟨rfl, h.withCpu _⟩
  | syscall =>
      simp only [Machine.executeBare]
      exact .ok ⟨by rw [h.callHost.cpu], h.callHost⟩

/-- Machines that are alike execute an instruction alike. -/
theorem execute (h : L.Alike m m') (pc : UInt32) (i : Instruction) :
    Matches (fun r r' => r'.1 = r.1 ∧ L.Alike r.2 r'.2)
      (m.execute pc i) (m'.execute pc i) := by
  cases i with
  | bare op => exact h.executeBare pc op
  | register op args =>
      exact (h.executeRegister pc op args).bind fun n n' hn => .ok ⟨rfl, hn⟩
  | immediate op args => exact .ok ⟨rfl, h.executeImmediate op args⟩
  | jump op args => exact h.executeJump pc op args

theorem fetch (h : L.Alike m m') (pc : UInt32) : m'.fetch pc = m.fetch pc := by
  unfold Machine.fetch
  rw [h.memory.readWord_eq rfl]

/-- Machines that are alike get equally far with the next instruction. -/
theorem attempt (h : L.Alike m m') (pc : UInt32) :
    Matches (fun r r' => r'.1 = r.1 ∧ r'.2.1 = r.2.1 ∧ L.Alike r.2.2 r'.2.2)
      (m.attempt pc) (m'.attempt pc) := by
  unfold Machine.attempt
  rw [h.fetch]
  cases m.fetch pc with
  | error e => exact .error e
  | ok word =>
      show Matches _ (Machine.decodeAt pc word >>= _) (Machine.decodeAt pc word >>= _)
      cases Machine.decodeAt pc word with
      | error e => exact .error e
      | ok i => exact (h.execute pc i).bind fun r r' hr => .ok ⟨rfl, hr⟩

/-- The account of a success is kept alike. -/
theorem advance (h : L.Alike m m') (pc word : UInt32) (flow : Flow) :
    L.Alike (m.advance pc word flow) (m'.advance pc word flow) :=
  { h with
    cpu := by simp only [Machine.advance, h.cpu]
    debugger := L.countInstruction h.debugger
    trace := by
      simp only [Machine.advance, Tracer.trace, Ring.toList_pushOverwrite_eq, h.trace,
        h.traceRoom]
    traceRoom := by
      simp only [Machine.advance, Tracer.trace, Ring.capacity_pushOverwrite, h.traceRoom] }

end Alike

end Likeness

end SandboxCpu
