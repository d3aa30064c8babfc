import SandboxCpu.Proofs.Isa.Table
import SandboxCpu.Proofs.Machine.Transparency

/-!
# Execution follows the table

The transaction of an instruction (`Machine.execute`) comes to what the row of
its operation says: the same fault, or the row's effect.  There is one departure.
Where the row of the call takes no more of a line than was asked for, the host
stores the line at the length that the console gave it (`receiveLine`).  So
execution is compared with the rows as the host carries them out
(`performed`, `execute_conforms`), and these are the rows themselves as long as the
console keeps to what it is asked for (`receiveLine_eq`).

Three things are compared.  The operands of a decoded instruction are the fields
that the table reads off the word (`Opcode.applied`).  An access to memory that
is checked page by page and made of shifted bytes is one that is granted byte by
byte and counts in base 256.  And each way in which the code changes a machine
is one of a few ways in which an effect does (`Executed`).

When a row or the code of an operation changes, its line in one of the case
analyses is what has to follow; the lemmas above them speak of no operation.
-/

namespace SandboxCpu

open Word Isa

/-! ## Memory in base 256 -/

namespace Memory

theorem allows_iff_granted {m : Memory} {addr : UInt32} {size : Nat} {p : Protection} :
    m.allows addr size p = true ↔ m.Granted p addr size := allows_iff

theorem ofNat_number_four (m : Memory) (addr : Nat) :
    UInt32.ofNat (number m addr 4) = m.wordAt addr := by
  apply UInt32.toNat_inj.mp
  have hword := (m.wordAt addr).toNat_lt
  rw [toNat_wordAt] at hword ⊢
  simp only [number, UInt32.toNat_ofNat', Nat.add_assoc, Nat.reduceAdd]
  omega

theorem ofNat_number_one (m : Memory) (addr : Nat) :
    UInt32.ofNat (number m addr 1) = (m.byteAt addr).toUInt32 := by
  rw [number, number, Nat.mul_zero, Nat.add_zero, UInt32.ofNat_uInt8ToNat]

theorem writeWord_eq (m : Memory) (addr value : UInt32) (p : Protection) :
    m.writeWord addr value p = m.write addr (digits value 4) p := by
  rw [writeWord, LittleEndian.bytes_eq]
  rfl

theorem writeByte_eq (m : Memory) (addr value : UInt32) (p : Protection) :
    m.writeByte addr value.toUInt8 p = m.write addr (digits value 1) p := by
  have hbyte : UInt8.ofNat (value.toNat / 256 ^ 0) = value.toUInt8 := by
    rw [Nat.pow_zero, Nat.div_one]
    rfl
  rw [writeByte, ← hbyte]
  rfl

theorem length_digits (w : UInt32) (size : Nat) : (digits w size).length = size := by
  rw [digits, List.length_map, List.length_range]

end Memory

/-! ## The operands of a word -/

namespace Layout

theorem reg_eq_field (start : Nat) (h : start + 4 ≤ 32) (w : UInt32) :
    reg ⟨start, start + 4, by omega, h⟩ w = field w start := by
  apply Fin.ext
  have hwidth : (⟨start, start + 4, by omega, h⟩ : BitRange).width = 4 := by
    simp only [BitRange.width]
    omega
  simp only [reg, field, Fin.val_ofNat, BitRange.toNat_read, hwidth]
  exact Nat.mod_mod _ _

theorem registerArgs_eq (w : UInt32) : registerArgs w = ⟨field w 20, field w 16, field w 12⟩ := by
  rw [registerArgs, ← reg_eq_field 20 (by decide), ← reg_eq_field 16 (by decide),
    ← reg_eq_field 12 (by decide)]
  rfl

theorem rd_immediateArgs (w : UInt32) : (immediateArgs w).rd = field w 20 := by
  rw [← reg_eq_field 20 (by decide)]
  rfl

/-- A number kept in the lowest bits of a word, once its sign is extended. -/
theorem toUInt32_signExtend_field (width : SignWidth) (w : UInt32) :
    (signExtend width (UInt32.ofBitVec
      (((BitRange.mk 0 width.bits (Nat.zero_le _) width.bits_le_width).read w).toBitVec.setWidth
        width.bits |>.setWidth 32))).toUInt32 = UInt32.ofInt (immediate w width.bits) := by
  have hle : 2 ^ width.bits ≤ 2 ^ 32 := Nat.pow_le_pow_right (by decide) width.bits_le_width
  have hpos : 0 < 2 ^ width.bits := Nat.two_pow_pos _
  rw [ofInt_signExtend, UInt32.toNat_ofBitVec, BitVec.toNat_setWidth, BitVec.toNat_setWidth,
    UInt32.toNat_toBitVec, BitRange.toNat_read, BitRange.width, Nat.pow_zero, Nat.div_one,
    Nat.sub_zero, Nat.mod_mod,
    Nat.mod_eq_of_lt (Nat.lt_of_lt_of_le (Nat.mod_lt _ hpos) hle), Int.natCast_emod, immediate]
  exact congrArg UInt32.ofInt (Int.emod_bmod _ _)

theorem value_immediateArgs (w : UInt32) :
    (immediateArgs w).value.toUInt32 = UInt32.ofInt (immediate w 16) :=
  toUInt32_signExtend_field { bits := 16 } w

theorem target_jumpArgs (w : UInt32) :
    (jumpArgs w).target = UInt32.ofInt (immediate w 24) :=
  toUInt32_signExtend_field { bits := 24 } w

end Layout

/-- An operation with the operands that a word holds. -/
def Opcode.applied (w : UInt32) : Opcode → Instruction
  | bare op => .bare op
  | register op => .register op (Layout.registerArgs w)
  | immediate op => .immediate op (Layout.immediateArgs w)
  | jump op => .jump op (Layout.jumpArgs w)

/-- A word decodes to the operation in its top byte, applied to its operands. -/
theorem Instruction.applied_of_decode {w : UInt32} {i : Instruction} (h : decode w = .ok i) :
    i.opcode.code.toNat = w.toNat / 2 ^ 24 ∧ i = i.opcode.applied w := by
  constructor
  · have hread : (Layout.opcode.read w).toNat = w.toNat / 2 ^ 24 % 2 ^ 8 :=
      Layout.opcode.toNat_read w
    have := w.toNat_lt
    rw [opcode_of_decode h, Layout.opcodeOf, UInt32.toNat_toUInt8, hread]
    omega
  · unfold decode at h
    split at h <;> cases h <;> rfl

/-! ## Effects of transactions -/

namespace Isa

variable {κ : Type}

/-- What a transaction came to is what an effect says, and so is where execution
goes on. -/
structure Executed (e : Effect κ) (m : Machine κ) (r : Flow × Machine κ) : Prop extends
    e.Brings m r.2 where
  next : ∀ pc, r.1.nextPc pc = e.target.getD (plus pc 4)
  stops : r.1 = .halt ↔ e.halts = true
  instructions : r.2.debugger.instructions = m.debugger.instructions
  cycles : r.2.debugger.cycles = m.debugger.cycles + e.sleeps.toUInt64

namespace Executed

variable {e : Effect κ} {m n : Machine κ} {flow : Flow}

theorem nothing (m : Machine κ) : Executed {} m (.next, m) where
  reg _ := rfl
  flags := rfl
  sp := rfl
  fp := rfl
  halted := (Bool.or_false _).symm
  byteAt _ := rfl
  protectionAt _ := rfl
  heap := rfl
  timer := (UInt64.add_zero _).symm
  exitCode := rfl
  console := rfl
  config := rfl
  next pc := (plus_four pc).symm
  stops := by simp only [reduceCtorEq, Bool.false_eq_true]
  instructions := rfl
  cycles := (UInt64.add_zero _).symm

theorem copy (m : Machine κ) (rd : Reg) (value : UInt32) :
    Executed (Isa.copy rd value) m (.next, m.withCpu (m.cpu.setReg rd value)) :=
  { nothing m with reg := fun r => m.cpu.reg_setReg rd r value }

theorem truth (m : Machine κ) (rd : Reg) {p : Prop} [Decidable p] {b : Bool}
    (h : b = true ↔ p) : Executed (Isa.truth rd p) m (.next, m.withCpu (m.cpu.setTruth rd b)) := by
  rw [Isa.truth, Cpu.setTruth]
  simp only [h]
  exact copy m rd _

theorem resultFlags (m : Machine κ) (value : UInt32) :
    Executed { flags := .result value } m
      (.next, m.withCpu { m.cpu with flags := m.cpu.flags.updateZN value }) :=
  { nothing m with flags := Alu.updateZN_eq _ _ }

theorem arithmeticFlags (m : Machine κ) (r : Alu.Outcome) :
    Executed { flags := .arithmetic r } m
      (.next, m.withCpu { m.cpu with flags := r.apply m.cpu.flags }) :=
  { nothing m with flags := Alu.apply_eq _ _ }

theorem result (m : Machine κ) (rd : Reg) (value : UInt32) :
    Executed (Isa.result rd value) m (.next, m.withCpu (m.cpu.setResult rd value)) :=
  { resultFlags m value with reg := fun r => m.cpu.reg_setReg rd r value }

theorem arithmetic (m : Machine κ) (rd : Reg) (r : Alu.Outcome) :
    Executed (Isa.arithmetic rd r) m (.next, m.withCpu (m.cpu.setOutcome rd r)) :=
  { arithmeticFlags m r with reg := fun s => m.cpu.reg_setReg rd s r.value }

theorem jumpIf (m : Machine κ) (condition : Bool) (target : UInt32) :
    Executed (Isa.jumpIf condition target) m
      (if condition then .jump target else .next, m) := by
  cases condition with
  | false => exact nothing m
  | true =>
      exact { nothing m with
        next := fun _ => rfl
        stops := by simp only [Isa.jumpIf, reduceCtorEq, Bool.false_eq_true, ↓reduceIte] }

/-- An effect that moves the stack pointer too. -/
theorem withSp (h : Executed e m (flow, n)) (sp : UInt32) :
    Executed { e with sp := some sp } m (flow, n.withCpu { n.cpu with sp }) :=
  { h with sp := rfl }

/-- An effect that stores bytes too. -/
theorem storing (h : Executed e m (flow, n)) {addr : UInt32}
    {bytes : List UInt8} (hfits : addr.toNat + bytes.length ≤ 65536) :
    Executed { e with store := some (addr, bytes) } m
      (flow, { n with memory := m.memory.setBytes addr.toNat bytes }) :=
  { h with
    byteAt := fun a => Memory.byteAt_setBytes m.memory _ a bytes hfits
    protectionAt := fun a => Memory.protectionAt_setBytes m.memory _ a bytes }

theorem leaving (h : Executed e m (flow, n)) (console : κ) :
    Executed (e.leaving console) m (flow, { n with console }) :=
  { h with console := rfl }

/-- An effect that writes a register too. -/
theorem withDest (h : Executed e m (flow, n)) (hdest : e.dest = none) (rd : Reg)
    (value : UInt32) :
    Executed { e with dest := some (rd, value) } m
      (flow, { n with cpu := n.cpu.setReg rd value }) := by
  refine { h with reg := fun r => ?_ }
  have hreg := h.reg r
  rw [Effect.regAfter, hdest] at hreg
  rw [Cpu.reg_setReg, hreg]
  rfl

/-- What the debugger remembers makes no difference, as long as it counts the same. -/
theorem of_debugger {d : Debugger} {phase : Phase} {r : Flow × Machine κ}
    (hd : d.instructions = m.debugger.instructions ∧ d.cycles = m.debugger.cycles)
    (h : Executed e { m with debugger := d, phase := phase } r) : Executed e m r :=
  { h with
    instructions := h.instructions.trans hd.1
    cycles := by rw [h.cycles, hd.2] }

end Executed

/-! ## Access to memory -/

theorem reading_word (m : Machine κ) (addr : UInt32) (use : UInt32 → Effect κ) :
    reading m addr 4 use = match m.memory.readWord addr .reading with
      | .ok value => .ok (use value)
      | .error e => .error ⟨m.cpu.pc, .memory e⟩ := by
  rw [reading, Memory.readWord, Memory.ofNat_number_four]
  simp only [Memory.allows_iff_granted]
  split <;> rfl

theorem reading_byte (m : Machine κ) (addr : UInt32) (use : UInt32 → Effect κ) :
    reading m addr 1 use = match m.memory.readByte addr .reading with
      | .ok value => .ok (use value.toUInt32)
      | .error e => .error ⟨m.cpu.pc, .memory e⟩ := by
  rw [reading, Memory.readByte, Memory.ofNat_number_one]
  simp only [Memory.allows_iff_granted]
  split <;> rfl

theorem storing_eq (m : Machine κ) (addr value : UInt32) (size : Nat) (e : Effect κ) :
    storing m addr value size e = match m.memory.write addr (digits value size) .writing with
      | .ok _ => .ok { e with store := some (addr, digits value size) }
      | .error e => .error ⟨m.cpu.pc, .memory e⟩ := by
  rw [storing, Memory.write, Memory.length_digits]
  simp only [Memory.allows_iff_granted]
  split <;> rfl

theorem Executed.write {e : Effect κ} {m n : Machine κ} {flow : Flow}
    (h : Executed e m (flow, n)) {addr : UInt32} {bytes : List UInt8} {memory : Memory}
    (hwrite : m.memory.write addr bytes .writing = .ok memory) :
    Executed { e with store := some (addr, bytes) } m (flow, { n with memory }) := by
  obtain ⟨hallows, rfl⟩ := Memory.write_eq_ok_iff.mp hwrite
  exact h.storing (Memory.allows_iff.mp hallows).1

/-! ## Operations, line by line -/

variable [Console κ]

theorem executeRegister_conforms (m : Machine κ) (w : UInt32) (op : RegisterOp) :
    Matches (Executed · m ·) (row m w (.register op))
      (m.execute m.cpu.pc (.register op (Layout.registerArgs w))) := by
  rw [Layout.registerArgs_eq]
  cases op with
  | add =>
      simp only [row, ← Alu.add_eq_exact]
      exact .ok (.arithmetic m _ _)
  | sub =>
      simp only [row, ← Alu.sub_eq_exact]
      exact .ok (.arithmetic m _ _)
  | mul =>
      simp only [row, ← Alu.mul_eq_exact]
      exact .ok (.arithmetic m _ _)
  | neg =>
      simp only [row, ← Alu.neg_eq_exact]
      exact .ok (.arithmetic m _ _)
  | div =>
      simp only [row, dividing, ofNat_div, Machine.execute, Machine.executeRegister]
      split
      · exact .error _
      · exact .ok (.result m _ _)
  | mod =>
      simp only [row, dividing, ofNat_mod, Machine.execute, Machine.executeRegister]
      split
      · exact .error _
      · exact .ok (.result m _ _)
  | and | or | xor | not => exact .ok (.result m _ _)
  | shl =>
      simp only [row, ← shiftLeft_eq]
      exact .ok (.result m _ _)
  | shr =>
      simp only [row, ← shiftRight_eq]
      exact .ok (.result m _ _)
  | load =>
      simp only [row, reading_word, plus_unsigned, Machine.execute, Machine.executeRegister]
      cases m.memory.readWord (m.cpu.reg (field w 16) + m.cpu.reg (field w 12)) .reading with
      | ok value => exact .ok (.copy m _ value)
      | error e => exact .error _
  | loadb =>
      simp only [row, reading_byte, plus_unsigned, Machine.execute, Machine.executeRegister]
      cases m.memory.readByte (m.cpu.reg (field w 16) + m.cpu.reg (field w 12)) .reading with
      | ok value => exact .ok (.copy m _ value.toUInt32)
      | error e => exact .error _
  | store =>
      simp only [row, storing_eq, plus_unsigned, Machine.execute, Machine.executeRegister,
        Memory.writeWord_eq]
      cases hwrite : m.memory.write (m.cpu.reg (field w 16) + m.cpu.reg (field w 12))
          (digits (m.cpu.reg (field w 20)) 4) .writing with
      | ok memory => exact .ok (.write (.nothing m) hwrite)
      | error e => exact .error _
  | storeb =>
      simp only [row, storing_eq, plus_unsigned, Machine.execute, Machine.executeRegister,
        Memory.writeByte_eq]
      cases hwrite : m.memory.write (m.cpu.reg (field w 16) + m.cpu.reg (field w 12))
          (digits (m.cpu.reg (field w 20)) 1) .writing with
      | ok memory => exact .ok (.write (.nothing m) hwrite)
      | error e => exact .error _
  | push =>
      simp only [row, storing_eq, plus_neg_four, Machine.execute, Machine.executeRegister,
        Machine.pushWord, Memory.writeWord_eq]
      cases hwrite : m.memory.write (m.cpu.sp - 4) (digits (m.cpu.reg (field w 16)) 4)
          .writing with
      | ok memory => exact .ok (.write (.withSp (.nothing m) _) hwrite)
      | error e => exact .error _
  | pop =>
      simp only [row, reading_word, plus_four, Machine.execute, Machine.executeRegister,
        Machine.topWord]
      cases m.memory.readWord m.cpu.sp .reading with
      | ok value => exact .ok (.withSp (.copy m _ value) _)
      | error e => exact .error _
  | mov => exact .ok (.copy m _ _)
  | cmp =>
      simp only [row, ← Alu.sub_eq_exact]
      exact .ok (.arithmeticFlags m _)
  | test => exact .ok (.resultFlags m _)
  | slt => exact .ok (.truth m _ (by rw [decide_eq_true_iff, lt_iff_signed]))
  | sle => exact .ok (.truth m _ (by rw [decide_eq_true_iff, le_iff_signed]))
  | seq | sne => exact .ok (.truth m _ decide_eq_true_iff)

theorem executeImmediate_conforms (m : Machine κ) (w : UInt32) (op : ImmediateOp) :
    Matches (Executed · m ·) (row m w (.immediate op))
      (m.execute m.cpu.pc (.immediate op (Layout.immediateArgs w))) := by
  simp only [Machine.execute, Machine.executeImmediate, Layout.rd_immediateArgs,
    Layout.value_immediateArgs]
  cases op with
  | addi =>
      simp only [row, ← Alu.add_eq_exact]
      exact .ok (.arithmetic m _ _)
  | loadi => exact .ok (.copy m _ _)
  | lui =>
      simp only [row, ofInt_shiftLeft]
      exact .ok (.copy m _ _)

theorem executeJump_conforms (m : Machine κ) (w : UInt32) (op : JumpOp) :
    Matches (Executed · m ·) (row m w (.jump op))
      (m.execute m.cpu.pc (.jump op (Layout.jumpArgs w))) := by
  simp only [Machine.execute, Machine.executeJump, Layout.target_jumpArgs]
  cases op with
  | jmp | jz | jnz | jc | jnc => exact .ok (.jumpIf m _ _)
  | call =>
      simp only [row, storing_eq, plus_neg_four, plus_four, Machine.pushWord, Memory.writeWord_eq]
      cases hwrite : m.memory.write (m.cpu.sp - 4) (digits (m.cpu.pc + 4) 4) .writing with
      | ok memory => exact .ok (.write (.withSp (.jumpIf m true _) _) hwrite)
      | error e => exact .error _

/-! ## Calls to the host -/

omit [Console κ] in
/-- Storing a line as the console gave it.  One that is longer than was asked for may
not fit where it should go. -/
def storeLine (m : Machine κ) (addr : UInt32) (line : List UInt8) (console : κ) : Effect κ :=
  if m.memory.Granted .writing addr line.length then
    Effect.leaving { answer (UInt32.ofNat line.length) with store := some (addr, line) } console
  else failure.leaving console

/-- What the host does to read a line.  It asks for no more than the row of the call
takes, but it takes all that it is given. -/
def receiveLine (m : Machine κ) (addr size : UInt32) : Effect κ :=
  if m.memory.Granted .writing addr size.toNat then
    match Console.readLine m.console (min size.toNat m.config.readLimit) with
    | (.ok line, console) => storeLine m addr line console
    | (.error _, console) => failure.leaving console
  else failure

/-- A line that is no longer than was asked for is stored as its row says: it fits into
the range that has been checked. -/
theorem receiveLine_eq {m : Machine κ} {addr size : UInt32}
    (h : m.memory.Granted .writing addr size.toNat → ∀ line console,
      Console.readLine m.console (min size.toNat m.config.readLimit) = (.ok line, console) →
        line.length ≤ min size.toNat m.config.readLimit) :
    receiveLine m addr size = readLine m addr size := by
  unfold receiveLine readLine
  dsimp only
  split
  · rename_i hgranted
    rcases hconsole : Console.readLine m.console _ with ⟨_ | line, console⟩
    · rfl
    · have hlength := h hgranted line console hconsole
      have hfits : m.memory.Granted .writing addr line.length :=
        hgranted.mono (Nat.le_trans hlength (Nat.min_le_left _ _))
      dsimp only
      rw [storeLine, if_pos hfits, List.take_of_length_le hlength]
  · rfl

/-- What the host does when it serves a call. -/
def provided (m : Machine κ) (call : SystemCall) : Effect κ :=
  if call.number = 3 then receiveLine m call.arg0 call.arg1
  else service m call.number call.arg0 call.arg1

/-- What the instruction of a word does to a machine when the host serves its calls. -/
def performed (m : Machine κ) (w : UInt32) : Opcode → Except Fault (Effect κ)
  | .bare .syscall => .ok (provided m m.systemCall)
  | op => row m w op

/-- The machine that a served call leaves, with the answer in register 0. -/
def answered (r : Except SystemCallError UInt32 × Machine κ) : Machine κ :=
  { r.2 with cpu := r.2.cpu.setReg (register 0) <|
      match r.1 with
      | .ok value => value
      | .error _ => SystemCall.failure }

theorem printCall_conforms (m : Machine κ) (addr size : UInt32) :
    Executed (print m addr size) m (.next, answered (m.printCall addr size)) := by
  rw [print, Machine.printCall, Memory.read]
  simp only [Memory.allows_iff_granted]
  split
  · simp only [Memory.bytesAt]
    rcases Console.write m.console _ with ⟨_ | _, console⟩
    · exact .leaving (.copy m _ _) console
    · exact .leaving (.copy m _ _) console
  · exact .copy m _ _

theorem readCall_conforms (m : Machine κ) (addr size : UInt32) :
    Executed (receiveLine m addr size) m (.next, answered (m.readCall addr size)) := by
  rw [receiveLine, Machine.readCall]
  simp only [Memory.allows_iff_granted]
  split
  · rcases Console.readLine m.console _ with ⟨_ | line, console⟩
    · exact .leaving (.copy m _ _) console
    · simp only [storeLine, Memory.write, Memory.allows_iff_granted]
      split
      · rename_i hgranted
        exact .leaving (.storing (.copy m _ _) hgranted.1) console
      · exact .leaving (.copy m _ _) console
  · exact .copy m _ _

omit [Console κ] in
theorem exitCall_conforms (m : Machine κ) (code : UInt32) :
    Executed { exitCode := some (Int32.ofInt (signed code)), halts := true } m
      (.halt, m.exitCall code) :=
  { Executed.nothing m with
    halted := (Bool.or_true _).symm
    exitCode := by
      rw [← toInt_toInt32, Int32.ofInt_toInt]
      rfl
    next := fun pc => (plus_four pc).symm
    stops := by simp only }

omit [Console κ] in
theorem allocCall_conforms (m : Machine κ) (size : UInt32) :
    Executed (allocate m size) m
      (.next, answered (.ok (m.alloc size).1, (m.alloc size).2)) := by
  simp only [allocate, Machine.alloc, Heap.alloc, Heap.fits, decide_eq_true_eq]
  split
  · have hheap : Executed { heap := some { m.heap with used := m.heap.usedAfter size } } m
        (.next, { m with heap := { m.heap with used := m.heap.usedAfter size } }) :=
      { Executed.nothing m with heap := rfl }
    rw [← plus_unsigned]
    exact hheap.withDest rfl _ _
  · exact .copy m _ _

theorem serve_conforms (m : Machine κ) (call : SystemCall) :
    Executed (provided m call) m
      (if call.number = 1 then .halt else .next, answered (m.serve call)) := by
  by_cases hread : call.number = 3
  · have hnot : ¬ call.number = 1 := by
      rw [hread]
      decide
    have hserve : m.serve call = m.readCall call.arg0 call.arg1 := by
      rw [Machine.serve, hread]
      rfl
    rw [provided, if_pos hread, if_neg hnot, hserve]
    exact readCall_conforms m _ _
  rw [provided, if_neg hread]
  unfold service Machine.serve
  split
  · exact (exitCall_conforms m call.arg0).withDest rfl _ 0
  split
  · exact printCall_conforms m _ _
  split
  · exact .copy m _ _
  split
  · have hsleep : Executed { sleeps := call.arg0 } m (.next, m.sleepCall call.arg0) :=
      { Executed.nothing m with timer := rfl, cycles := rfl }
    exact hsleep.withDest rfl _ 0
  split
  · exact allocCall_conforms m _
  split
  · exact .copy m _ _
  · split <;> exact .copy m _ _

/-- The call instruction goes nowhere exactly when the call has stopped the
guest. -/
theorem callHost_conforms {m : Machine κ} (hhalted : m.cpu.halted = false) :
    Executed (provided m m.systemCall) m
      (if m.callHost.cpu.halted then .halt else .next, m.callHost) := by
  have hserved : Executed (provided m m.systemCall) m
      (if m.systemCall.number = 1 then .halt else .next, m.callHost) :=
    (serve_conforms { m with debugger := m.debugger.record (.syscall m.systemCall.number) }
      m.systemCall).of_debugger (Debugger.counters_record _ _)
  have hstops := hserved.stops
  rw [← Bool.false_or (Effect.halts _), ← hhalted, ← hserved.halted] at hstops
  have hnumber : m.callHost.cpu.halted = true ↔ m.systemCall.number = 1 := by
    rw [← hstops]
    split
    · simp only [*]
    · simp only [*, reduceCtorEq]
  simp only [hnumber]
  exact hserved

theorem executeBare_conforms {m : Machine κ} (hhalted : m.cpu.halted = false) (w : UInt32)
    (op : BareOp) :
    Matches (Executed · m ·) (performed m w (.bare op)) (m.execute m.cpu.pc (.bare op)) := by
  cases op with
  | nop => exact .ok (.nothing m)
  | halt =>
      exact .ok { Executed.nothing m with
        halted := (Bool.or_true _).symm
        next := fun pc => (plus_four pc).symm
        stops := by simp only }
  | ret =>
      simp only [performed, row, reading_word, plus_four, Machine.execute, Machine.executeBare,
        Machine.topWord]
      cases m.memory.readWord m.cpu.sp .reading with
      | ok value => exact .ok (.withSp (.jumpIf m true value) _)
      | error e => exact .error _
  | syscall => exact .ok (callHost_conforms hhalted)

/-- **Executing an instruction comes to what its row says**, as the host carries it out. -/
theorem execute_conforms {m : Machine κ} (hhalted : m.cpu.halted = false) (w : UInt32)
    (op : Opcode) :
    Matches (Executed · m ·) (performed m w op) (m.execute m.cpu.pc (op.applied w)) := by
  cases op with
  | bare op => exact executeBare_conforms hhalted w op
  | register op => exact executeRegister_conforms m w op
  | immediate op => exact executeImmediate_conforms m w op
  | jump op => exact executeJump_conforms m w op

end Isa

end SandboxCpu
