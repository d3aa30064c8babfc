import SandboxCpu.Proofs.Heap.Blocks
import SandboxCpu.Proofs.Machine.Conformance
import SandboxCpu.Proofs.Machine.Phase
import SandboxCpu.Proofs.Machine.Trace

/-!
# Allocated memory

Blocks of the heap are handed out to the guest, by a call, and to the host, by an
operation, from one region.  Here they are collected over a whole history, as the
two get to know of them: the guest reads an address from a register after the call
and the host gets it as an answer (`allocations`).

The heap knows nothing of memory, and memory nothing of the heap.  What ties them
together is that the region of the heap lies on pages that may be read and written
in the first layout, and that these pages stay as they are unless the host changes
the page table.  So a history without such changes and without a reset keeps two
things, the page table and the order of the blocks (`Allotted`).

From these it follows that a store of the guest into a block is carried out, and
that it leaves all other blocks alone.

## Main results

* `heap_step`: what a call of `step` does to the heap.
* `Allotted.perform`: an operation keeps the blocks and the page table in order.
* `step_of_storing`: a store that memory allows, carried out by a call of `step`.
* `allocated_memory_usable`: what every block of a history is good for.
-/

namespace SandboxCpu

open Heap (Block)

/-! ## The pages of the heap -/

namespace Memory

/-- With the page table of the first layout the region of the heap may be read and
written. -/
theorem allows_of_heap {m : Memory} (hpages : ∀ a, m.protectionAt a = initial.protectionAt a)
    {addr : UInt32} {size : Nat} {p : Protection} (hp : p.execute = false)
    (hlo : 0x4000 ≤ addr.toNat) (hhi : addr.toNat + size ≤ 0xC000) :
    m.allows addr size p = true := by
  refine allows_iff.mpr ⟨by omega, fun a hfirst hlast => ?_⟩
  have hcode : ¬ a / 256 < 64 := by omega
  have hheap : a / 256 < 192 := by omega
  rw [Grants, hpages, protectionAt_initial (by omega), initialProtection, if_neg hcode,
    if_pos hheap]
  rcases p with ⟨present, read, write, execute⟩
  cases hp
  simp [Protection.contains, Protection.union, Protection.presence]

end Memory

/-- An operation that leaves the page table of the first layout and the blocks of the
heap as they are. -/
def Operation.keepsLayout {κ : Type} : Operation κ → Bool
  | .reset => false
  | .setProtection page p => 256 ≤ page || p = Memory.initialProtection page
  | _ => true

namespace Machine

variable {κ : Type} [Console κ] {m : Machine κ}

/-! ## Requests of the guest -/

/-- The number of bytes that the next call of `step` asks for, if it makes the call
that asks for a block. -/
def request (m : Machine κ) : Option UInt32 :=
  match m.executing.map fun e => Instruction.decode e.word with
  | some (.ok (.bare .syscall)) =>
    if m.systemCall.number = 6 then some m.systemCall.arg0 else none
  | _ => none

/-- The block that the guest learns of by the next call of `step`, if there is one.  It
finds the address in the register in which it had put the number of the call. -/
def granted (m : Machine κ) : List Block :=
  m.request.elim [] (Block.answered m.step.2.systemCall.number)

/-- The host, serving a call, uses the heap for one of them only. -/
theorem heap_serve (m : Machine κ) (call : SystemCall) :
    (m.serve call).2.heap =
      if call.number = 6 then (m.heap.alloc call.arg0).2 else m.heap := by
  have hserved := served m call
  generalize (m.serve call).2 = n at hserved ⊢
  cases hserved with
  | allocates hnumber => exact (if_pos hnumber).symm
  | exits hnumber => exact (if_neg (by rw [hnumber]; decide)).symm
  | asks hnumber console =>
      rcases hnumber with h | h <;> exact (if_neg (by rw [h]; decide)).symm
  | stores hnumber console hwrite => exact (if_neg (by rw [hnumber]; decide)).symm
  | sleeps hnumber => exact (if_neg (by rw [hnumber]; decide)).symm
  | idles hnumber => exact (if_neg hnumber.2).symm

/-- A request of the guest is answered where its number was. -/
theorem number_callHost (hsix : m.systemCall.number = 6) :
    m.callHost.systemCall.number = (m.heap.alloc m.systemCall.arg0).1 := by
  rw [callHost, serve, hsix]
  exact (Cpu.reg_setReg _ _ _ _).trans (if_pos rfl)

theorem request_of_executing_none (h : m.executing = none) : m.request = none := by
  rw [request, h]
  rfl

/-- A call of `step` leaves the heap alone, or it takes a block for the guest. -/
theorem heap_step (m : Machine κ) :
    (m.request = none ∧ m.step.2.heap = m.heap) ∨
      ∃ size, m.request = some size ∧ m.step.2.heap = (m.heap.alloc size).2 ∧
        m.step.2.systemCall.number = (m.heap.alloc size).1 := by
  cases m.situation with
  | stopped hhalted =>
      rw [step_of_halted hhalted]
      exact .inl ⟨request_of_executing_none (executing_of_stopped hhalted), rfl⟩
  | held hpauses =>
      rw [step_of_pauses hpauses]
      exact .inl ⟨request_of_executing_none (executing_of_held hpauses), rfl⟩
  | failed hhalted hpauses hattempt =>
      rw [step_of_fault hhalted hpauses hattempt]
      exact .inl ⟨request_of_executing_none (executing_of_failed hattempt), rfl⟩
  | @done word flow n hhalted hpauses hattempt =>
      obtain ⟨-, i, hdecodeAt, hexecute⟩ := of_attempt hattempt
      have hdecode := decode_of_decodeAt hdecodeAt
      have hretired := architecture_step hhalted hpauses hattempt
      have hheap : m.step.2.heap = n.heap := congrArg Architecture.heap hretired
      have hanswer : m.step.2.systemCall.number = n.systemCall.number :=
        congrArg (fun a => a.cpu.reg (Reg.of 0)) hretired
      rw [request, executing_of_done hhalted hpauses hattempt, Option.map_some, hdecode, hheap,
        hanswer]
      -- No instruction but the call reaches the heap, and of the calls one only.
      by_cases hi : i = .bare .syscall
      · subst hi
        cases hexecute
        by_cases hsix : m.systemCall.number = 6
        · exact .inr ⟨_, if_pos hsix, (heap_serve _ _).trans (if_pos hsix),
            number_callHost (m := m.released) hsix⟩
        · exact .inl ⟨if_neg hsix, (heap_serve _ _).trans (if_neg hsix)⟩
      · refine .inl ⟨?_, ?_⟩
        · split
          · rename_i heq
            cases heq
            exact absurd rfl hi
          · rfl
        · rw [(Local.of_execute hexecute hi).rest]
          rfl

end Machine

/-! ## The blocks of a history -/

/-- The blocks that the guest learns of by a call of `step`. -/
def Act.granted {κ : Type} [Console κ] : Act κ → List Block
  | .step on => on.granted
  | .other _ => []

namespace Machine

variable {κ : Type} [Console κ] {m : Machine κ}

/-- The blocks that guest and host learn of by an operation. -/
def handedOut (m : Machine κ) : Operation κ → List Block
  | .step => m.granted
  | .steps n | .run n => (stepCalls n m).flatMap Act.granted
  | .alloc size => Block.answered (m.alloc size).1 size
  | _ => []

/-- The blocks that they learn of in a history, the first of them first. -/
def allocations : Machine κ → List (Operation κ) → List Block
  | _, [] => []
  | m, op :: history => m.handedOut op ++ allocations (m.perform op).2 history

/-! ## What a history keeps in order -/

/-- The blocks are those of the heap, which lies where the first layout has it, and
the page table is that of the first layout. -/
structure Allotted (blocks : List Block) (m : Machine κ) : Prop where
  base : m.heap.base = Memory.heapBase
  size : m.heap.size = Memory.heapSize
  laid : Heap.Laid m.heap blocks
  pages : ∀ a, m.memory.protectionAt a = Memory.initial.protectionAt a

namespace Allotted

variable {blocks : List Block}

omit [Console κ] in
theorem new (config : Config) (console : κ) : Allotted [] (.new config console) :=
  ⟨rfl, rfl, .fresh _ _, fun _ => rfl⟩

omit [Console κ] in
theorem placed (h : Allotted blocks m) : m.heap.Placed := by
  refine ⟨?_, ?_⟩
  · rw [h.base]
    decide
  · rw [h.base, h.size]
    decide

omit [Console κ] in
/-- Only heap and page table matter. -/
theorem congr {m' : Machine κ} (h : Allotted blocks m) (hheap : m'.heap = m.heap)
    (hpages : ∀ a, m'.memory.protectionAt a = m.memory.protectionAt a) : Allotted blocks m' := by
  refine ⟨?_, ?_, ?_, fun a => (hpages a).trans (h.pages a)⟩
  · rw [hheap]
    exact h.base
  · rw [hheap]
    exact h.size
  · rw [hheap]
    exact h.laid

omit [Console κ] in
/-- A request of the host keeps blocks and page table in order. -/
theorem alloc (h : Allotted blocks m) (size : UInt32) :
    Allotted (blocks ++ Block.answered (m.alloc size).1 size) (m.alloc size).2 where
  base := (Heap.base_alloc _ _).trans h.base
  size := (Heap.size_alloc _ _).trans h.size
  laid := h.laid.alloc h.placed size
  pages := h.pages

/-- So does a call of `step`, with a request of the guest or without one. -/
theorem step (h : Allotted blocks m) : Allotted (blocks ++ m.granted) m.step.2 := by
  have hpages := (Confined.step m).memory.protectionAt_eq
  rcases heap_step m with ⟨hnone, hheap⟩ | ⟨size, hsome, hheap, hanswer⟩
  · rw [granted, hnone, Option.elim_none, List.append_nil]
    exact h.congr hheap hpages
  · rw [granted, hsome, Option.elim_some, hanswer]
    exact (h.alloc size).congr hheap hpages

theorem stepCalls (h : Allotted blocks m) (n : Nat) :
    Allotted (blocks ++ (m.stepCalls n).flatMap Act.granted) (steps n m).2 := by
  have hnext : ∀ (acts : List (Act κ)) (m : Machine κ),
      Allotted (blocks ++ acts.flatMap Act.granted) m →
        Allotted (blocks ++ (acts ++ [Act.step m]).flatMap Act.granted) m.step.2 := by
    intro acts m hm
    rw [List.flatMap_append, List.flatMap_singleton, ← List.append_assoc]
    exact hm.step
  refine stepCalls_keeps (P := fun acts m => Allotted (blocks ++ acts.flatMap Act.granted) m)
    hnext n [] m ?_
  rw [List.flatMap_nil, List.append_nil]
  exact h

/-- An operation that leaves the layout as it is keeps blocks and page table in
order. -/
theorem perform (h : Allotted blocks m) {op : Operation κ} (hop : op.keepsLayout = true) :
    Allotted (blocks ++ m.handedOut op) (m.perform op).2 := by
  have hsame : ∀ {m' : Machine κ}, m'.heap = m.heap →
      (∀ a, m'.memory.protectionAt a = m.memory.protectionAt a) → Allotted (blocks ++ []) m' := by
    intro m' hheap hpages
    rw [List.append_nil]
    exact h.congr hheap hpages
  cases op with
  | step => exact h.step
  | steps n => exact h.stepCalls n
  | run bound =>
      show Allotted _ (run bound m).2
      rw [snd_run]
      exact h.stepCalls bound
  | reset => cases hop
  | alloc size => exact h.alloc size
  | load addr image =>
      simp only [Machine.perform, loadProgram]
      cases hload : m.memory.load addr image with
      | error e => exact hsame rfl fun _ => rfl
      | ok memory =>
          obtain ⟨-, rfl⟩ := Memory.load_eq_ok_iff.mp hload
          exact hsame rfl fun a => Memory.protectionAt_setBytes _ _ a _
  | write addr bytes =>
      simp only [Machine.perform, writeMemory]
      cases hwrite : m.memory.write addr bytes .writing with
      | error e => exact hsame rfl fun _ => rfl
      | ok memory =>
          obtain ⟨-, rfl⟩ := Memory.write_eq_ok_iff.mp hwrite
          exact hsame rfl fun a => Memory.protectionAt_setBytes _ _ a _
  | setProtection page p =>
      simp only [Machine.perform]
      cases hset : m.memory.setProtection page p with
      | error e => exact hsame rfl fun _ => rfl
      | ok memory =>
          refine hsame rfl fun a => ?_
          show memory.protectionAt a = m.memory.protectionAt a
          rw [Memory.protectionAt_setProtection hset]
          split
          · rename_i ha
            simp only [Operation.keepsLayout, Bool.or_eq_true, decide_eq_true_eq] at hop
            rw [h.pages, Memory.protectionAt_initial ha.1, ha.2]
            rcases hop with hpage | hp
            · omega
            · exact hp
          · rfl
  | setReg reg value =>
      simp only [Machine.perform]
      split <;> exact hsame rfl fun _ => rfl
  | addBreakpoint addr =>
      simp only [Machine.perform]
      split <;> exact hsame rfl fun _ => rfl
  | setPc | setSp | setFp | free | advanceTimer | setDebugger | setSingleStep
  | removeBreakpoint | clearBreakpoints | takeEvents | setConsole =>
      exact hsame rfl fun _ => rfl

/-- So does a history of such operations. -/
theorem after (history : List (Operation κ)) :
    ∀ (blocks : List Block) (m : Machine κ), (∀ op ∈ history, op.keepsLayout = true) →
      Allotted blocks m → Allotted (blocks ++ m.allocations history) (m.after history) := by
  induction history with
  | nil =>
      intro blocks m _ h
      rw [allocations, List.append_nil]
      exact h
  | cons op history ih =>
      intro blocks m hkeeps h
      rw [allocations, ← List.append_assoc]
      have hop := hkeeps op List.mem_cons_self
      exact ih _ _ (fun op' hmem => hkeeps op' (List.mem_cons_of_mem _ hmem)) (h.perform hop)

end Allotted

end Machine

/-! ## Stores -/

/-- The number of bytes that an operation on registers stores, if it is one of those
that do at the address in two registers. -/
def RegisterOp.storeWidth : RegisterOp → Option Nat
  | store => some 4
  | storeb => some 1
  | _ => none

namespace Machine

section Stores

variable {κ : Type} {m : Machine κ} {addr : UInt32} {width : Nat}

/-- A machine that is about to execute a store of some bytes at an address: it has
not stopped, no breakpoint holds it, and what it fetches is that instruction. -/
structure Storing (m : Machine κ) (addr : UInt32) (width : Nat) : Prop where
  halted : m.cpu.halted = false
  pauses : m.pauses = false
  instruction : ∃ word op args,
    m.memory.readWord m.cpu.pc .fetching = .ok word ∧
      Instruction.decode word = .ok (.register op args) ∧
      op.storeWidth = some width ∧
      addr = m.cpu.reg args.rs1 + m.cpu.reg args.rs2

/-- A store that memory allows changes the bytes at its address and nothing else. -/
theorem executeRegister_store {op : RegisterOp} (pc : UInt32) (args : RegisterArgs)
    (hop : op.storeWidth = some width)
    (hallows : m.memory.allows (m.cpu.reg args.rs1 + m.cpu.reg args.rs2) width .writing = true) :
    ∃ bytes : List UInt8, bytes.length = width ∧
      m.executeRegister pc op args = .ok { m with
        memory := m.memory.setBytes (m.cpu.reg args.rs1 + m.cpu.reg args.rs2).toNat bytes } := by
  cases op
  case store =>
    cases hop
    refine ⟨LittleEndian.bytes (m.cpu.reg args.rd), rfl, ?_⟩
    simp only [executeRegister, Memory.writeWord]
    rw [Memory.write_eq_ok_iff.mpr ⟨hallows, rfl⟩]
  case storeb =>
    cases hop
    refine ⟨[(m.cpu.reg args.rd).toUInt8], rfl, ?_⟩
    simp only [executeRegister, Memory.writeByte]
    rw [Memory.write_eq_ok_iff.mpr ⟨hallows, rfl⟩]
  all_goals cases hop

/-- A call of `step` carries it out. -/
theorem step_of_storing [Console κ] (h : m.Storing addr width)
    (hallows : m.memory.allows addr width .writing = true) :
    m.step.1 = .ok (if m.debugger.isSingleStep then .paused else .ongoing) ∧
      ∃ bytes : List UInt8, bytes.length = width ∧
        m.step.2.memory = m.memory.setBytes addr.toNat bytes := by
  obtain ⟨word, op, args, hread, hdecode, hop, rfl⟩ := h.instruction
  obtain ⟨bytes, hwidth, hexecute⟩ :=
    executeRegister_store (m := m.released) m.cpu.pc args hop hallows
  have hattempt : m.released.attempt m.cpu.pc = .ok (word, .next, { m.released with
      memory := m.memory.setBytes (m.cpu.reg args.rs1 + m.cpu.reg args.rs2).toNat bytes }) := by
    rw [attempt_eq_execute (m := m.released) hread hdecode, execute, hexecute]
    rfl
  refine ⟨?_, bytes, hwidth,
    congrArg Architecture.memory (architecture_step h.halted h.pauses hattempt)⟩
  rw [step_of_success h.halted h.pauses hattempt, retire_fst, if_neg (by decide),
    isSingleStep_attempt hattempt]

end Stores

/-! ## Main result -/

variable {κ : Type} [Console κ]

/-- **Allocated memory is usable.**  In a history of a new machine without a reset
and without changes of the page table, let guest and host have been given some
blocks of the heap.  Then

* a block that is not empty may be read and written as a whole, and lies between
  the code, which ends at `0x4000`, and the pages that are not there, which begin at
  `0xC000` and have the stack behind them;
* each block lies behind all that were given before it;
* a store of the guest into a block is carried out, and every byte of every other
  block stays as it is. -/
theorem allocated_memory_usable (config : Config) (console : κ) (history : List (Operation κ))
    (hkeeps : ∀ op ∈ history, op.keepsLayout = true) :
    let m := (Machine.new config console).after history
    let blocks := (Machine.new config console).allocations history
    (∀ b ∈ blocks, 0 < b.size →
      m.memory.allows b.addr b.size.toNat (Protection.reading.union .writing) = true ∧
        0x4000 ≤ b.start ∧ b.limit ≤ 0xC000) ∧
    blocks.Pairwise (fun b c => b.limit ≤ c.start) ∧
    ∀ b ∈ blocks, ∀ addr width, m.Storing addr width →
      b.start ≤ addr.toNat → addr.toNat + width ≤ b.limit →
        m.step.1 = .ok (if m.debugger.isSingleStep then .paused else .ongoing) ∧
          ∀ c ∈ blocks, c ≠ b → ∀ a, c.start ≤ a → a < c.limit →
            m.step.2.memory.byteAt a = m.memory.byteAt a := by
  intro m blocks
  have h : Allotted blocks m := Allotted.after history [] _ hkeeps (.new config console)
  have hinside : ∀ b ∈ blocks, 0x4000 ≤ b.start ∧ b.limit ≤ 0xC000 := by
    intro b hb
    have hin := h.laid.inside b hb
    have hused := h.laid.used_le
    rw [h.base] at hin
    rw [h.size] at hused
    change 0x4000 ≤ b.start ∧ b.limit ≤ 0x4000 + m.heap.used.toNat at hin
    change m.heap.used.toNat ≤ 0x8000 at hused
    omega
  refine ⟨fun b hb _ => ⟨?_, hinside b hb⟩, h.laid.apart, ?_⟩
  · obtain ⟨hlo, hhi⟩ := hinside b hb
    exact Memory.allows_of_heap h.pages rfl hlo hhi
  · intro b hb addr width hstoring hfirst hlast
    obtain ⟨hlo, hhi⟩ := hinside b hb
    have hallows : m.memory.allows addr width .writing = true :=
      Memory.allows_of_heap h.pages rfl (by omega) (by omega)
    obtain ⟨hok, bytes, hwidth, hmemory⟩ := step_of_storing hstoring hallows
    refine ⟨hok, fun c hc hne a hca hac => ?_⟩
    rw [hmemory]
    apply Memory.byteAt_setBytes_outside
    · omega
    · have hapart := h.laid.apart_of_ne hc hb hne
      omega

/-- A host is given five bytes and its guest eight, in which it is about to store. -/
def borrowing : List (Operation QueueConsole) :=
  [.load 0 (LittleEndian.image [0xF0000000, 0x31102000]), .alloc 5, .setReg 0 6, .setReg 1 8,
    .step]

/-- The machine about to execute the store. -/
def borrower : Machine QueueConsole := (Machine.new {} {}).after borrowing

/-- The second block starts at the next whole word, and the store leaves the first as
it is. -/
theorem allocated_memory_usable_borrower :
    (Machine.new {} {} : Machine QueueConsole).allocations borrowing =
        [⟨0x4000, 5⟩, ⟨0x4008, 8⟩] ∧
      borrower.Storing 0x4008 4 ∧ borrower.step.1 = .ok .ongoing ∧
      borrower.step.2.memory.byteAt 0x4004 = borrower.memory.byteAt 0x4004 := by
  have hblocks : (Machine.new {} {} : Machine QueueConsole).allocations borrowing =
      [⟨0x4000, 5⟩, ⟨0x4008, 8⟩] := by decide +kernel
  obtain ⟨hhalted, hpauses, hallows, hword, haddr, hsingle⟩ :
      borrower.cpu.halted = false ∧ borrower.pauses = false ∧
        borrower.memory.allows borrower.cpu.pc 4 .fetching = true ∧
        0x31102000 = borrower.memory.wordAt borrower.cpu.pc.toNat ∧
        0x4008 = borrower.cpu.reg 0 + borrower.cpu.reg 2 ∧
        borrower.debugger.isSingleStep = false := by decide +kernel
  have hstoring : borrower.Storing 0x4008 4 :=
    ⟨hhalted, hpauses, 0x31102000, .store, ⟨1, 0, 2⟩,
      Memory.readWord_eq_ok_iff.mpr ⟨hallows, hword⟩, rfl, rfl, haddr⟩
  have hborrower : (Machine.new {} {} : Machine QueueConsole).after borrowing = borrower := rfl
  obtain ⟨-, -, hstores⟩ := allocated_memory_usable {} {} borrowing (by decide)
  rw [hblocks, hborrower] at hstores
  obtain ⟨hok, hother⟩ := hstores ⟨0x4008, 8⟩ (by decide) 0x4008 4 hstoring (by decide) (by decide)
  rw [hsingle] at hok
  have hfirst : Block.start ⟨0x4000, 5⟩ ≤ 0x4004 := by decide
  have hlast : 0x4004 < Block.limit ⟨0x4000, 5⟩ := by decide
  have hkept := hother ⟨0x4000, 5⟩ (by decide) (by decide) 0x4004 hfirst hlast
  exact ⟨hblocks, hstoring, hok, hkept⟩

end Machine

end SandboxCpu
