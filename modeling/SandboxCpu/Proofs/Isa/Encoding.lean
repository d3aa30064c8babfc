import Mathlib.Logic.ExistsUnique
import SandboxCpu.Isa.Instruction
import SandboxCpu.Proofs.Word.Lens

/-!
# Instruction words

Encoding and decoding undo each other.  An instruction is recovered from its word.
A word is recovered from its instruction in the bits that its format uses
(`Opcode.usedBits`), so that a word without stray bits is the only word of its
instruction.

A decoder reads fields and an encoder writes them, and both go through types of
another width on the way: register numbers through bytes, the short immediate
through half a word, the long one through a signed word.  Each detour keeps the
bits of the field, which is shown first.  The rest is the calculus of lenses: the
fields of a format do not overlap, and copying them one after the other copies the
word behind a mask.

## Main results

* `registerArgs_assembleRegister`, `immediateArgs_assembleImmediate`,
  `jumpArgs_assembleJump` — what is read of an assembled word.
* `decode_encode` — an instruction is that of its word.
* `encode_decode` — a word is that of its instruction, stray bits apart.
* `encode_decode_inverse` — all of this, with the range of the operands and the
  words that do not decode.
-/

namespace SandboxCpu

/-- The bits of a word that count for an operation. -/
def Opcode.usedBits : Opcode → UInt32
  | bare _ => 0xFF000000
  | register _ => 0xFFFFF000
  | immediate _ => 0xFFF0FFFF
  | jump _ => 0xFFFFFFFF

/-! ## Immediates as numbers -/

/-- Extending the sign of a few bits keeps the number that they stand for. -/
theorem toInt_signExtend_setWidth (width : SignWidth) (imm : BitVec width.bits) :
    (signExtend width (UInt32.ofBitVec (imm.setWidth 32))).toInt = imm.toInt := by
  rw [toInt_signExtend, UInt32.toBitVec_ofBitVec,
    BitVec.setWidth_setWidth_of_le _ width.bits_le_width, BitVec.setWidth_eq]

theorem ImmediateArgs.toInt_value (args : ImmediateArgs) : args.value.toInt = args.imm.toInt :=
  toInt_signExtend_setWidth { bits := 16 } args.imm

theorem JumpArgs.toInt_value (args : JumpArgs) : args.value.toInt = args.imm.toInt :=
  toInt_signExtend_setWidth { bits := 24 } args.imm

/-- The low bits of a signed word are its balanced remainder. -/
theorem toInt_setWidth_toBitVec (i : Int32) {bits : Nat} (h : bits ≤ 32) :
    (i.toBitVec.setWidth bits).toInt = i.toInt.bmod (2 ^ bits) := by
  have hsigned : i.toInt = (i.toBitVec.toNat : Int).bmod (2 ^ 32) := BitVec.toInt_eq_toNat_bmod _
  rw [BitVec.toInt_setWidth, hsigned, Int.bmod_bmod_of_dvd (Nat.pow_dvd_pow 2 h)]

/-- The bits of a number in range, read as a number. -/
theorem toInt_ofInt_of_range {bits : Nat} (hbits : 0 < bits) {z : Int}
    (hlo : -2 ^ (bits - 1) ≤ z) (hhi : z < 2 ^ (bits - 1)) : (BitVec.ofInt bits z).toInt = z := by
  rw [BitVec.toInt_ofInt]
  exact bmod_two_pow_eq hbits hlo hhi

/-- The immediates of a register are the numbers of sixteen bits with a sign. -/
theorem ImmediateArgs.existsUnique_value (rd : Reg) (z : Int) :
    (∃! args : ImmediateArgs, args.rd = rd ∧ args.value.toInt = z) ↔
      -2 ^ 15 ≤ z ∧ z < 2 ^ 15 := by
  constructor
  · rintro ⟨args, ⟨-, hz⟩, -⟩
    rw [← hz, toInt_value]
    exact ⟨args.imm.le_toInt, args.imm.toInt_lt⟩
  · rintro ⟨hlo, hhi⟩
    have hz : (BitVec.ofInt 16 z).toInt = z := toInt_ofInt_of_range (by decide) hlo hhi
    refine ⟨⟨rd, BitVec.ofInt 16 z⟩, ⟨rfl, (toInt_value _).trans hz⟩, ?_⟩
    rintro ⟨rd', imm⟩ ⟨hrd, hvalue⟩
    rw [toInt_value] at hvalue
    congr 1
    exact BitVec.eq_of_toInt_eq (hvalue.trans hz.symm)

/-- The long immediates are the numbers of twenty-four bits with a sign. -/
theorem JumpArgs.existsUnique_value (z : Int) :
    (∃! args : JumpArgs, args.value.toInt = z) ↔ -2 ^ 23 ≤ z ∧ z < 2 ^ 23 := by
  constructor
  · rintro ⟨args, hz, -⟩
    rw [← hz, toInt_value]
    exact ⟨args.imm.le_toInt, args.imm.toInt_lt⟩
  · rintro ⟨hlo, hhi⟩
    have hz : (BitVec.ofInt 24 z).toInt = z := toInt_ofInt_of_range (by decide) hlo hhi
    refine ⟨⟨BitVec.ofInt 24 z⟩, (toInt_value _).trans hz, ?_⟩
    rintro ⟨imm⟩ hvalue
    rw [toInt_value] at hvalue
    congr 1
    exact BitVec.eq_of_toInt_eq (hvalue.trans hz.symm)

namespace Layout

/-! ## Reading what was assembled -/

theorem toNat_opcodeOf (w : UInt32) : (opcodeOf w).toNat = w.toNat / 2 ^ 24 := by
  have hwidth : opcode.width = 8 := rfl
  have hstart : opcode.start = 24 := rfl
  have := w.toNat_lt
  rw [opcodeOf, UInt32.toNat_toUInt8, BitRange.toNat_read, hwidth, hstart]
  omega

theorem opcodeOf_write (w : UInt32) (code : UInt8) :
    opcodeOf (opcode.write w code.toUInt32) = code := by
  have hwidth : opcode.width = 8 := rfl
  have := code.toNat_lt
  apply UInt8.toNat_inj.mp
  rw [opcodeOf, UInt32.toNat_toUInt8, BitRange.toNat_read_write, hwidth, UInt8.toNat_toUInt32]
  omega

theorem opcodeOf_write_below {r : BitRange} (h : r.stop ≤ 24) (w value : UInt32) :
    opcodeOf (r.write w value) = opcodeOf w := by
  rw [opcodeOf, opcodeOf, BitRange.read_write_of_apart _ _ _ (BitRange.apart_of_le (.inl h))]

/-- A register number that was written into a field keeps four bits. -/
theorem reg_write {field : BitRange} (hwidth : field.width = 4) (w : UInt32) (n : UInt8) :
    reg field (field.write w n.toUInt32) = Fin.ofNat 16 n.toNat := by
  apply Fin.ext
  rw [reg, BitRange.toNat_read_write, hwidth, UInt8.toNat_toUInt32]
  exact Nat.mod_mod _ _

theorem reg_write_of_le {r field : BitRange}
    (h : r.stop ≤ field.start ∨ field.stop ≤ r.start) (w value : UInt32) :
    reg field (r.write w value) = reg field w := by
  rw [reg, reg, BitRange.read_write_of_apart _ _ _ (BitRange.apart_of_le h)]

theorem opcodeOf_assembleRegister (op : Opcode) (a b c : UInt8) :
    opcodeOf (assembleRegister op a b c) = op.code := by
  rw [assembleRegister, opcodeOf_write_below (by decide), opcodeOf_write_below (by decide),
    opcodeOf_write_below (by decide), opcodeOf_write]

theorem registerArgs_assembleRegister (op : Opcode) (a b c : UInt8) :
    registerArgs (assembleRegister op a b c) =
      ⟨Fin.ofNat 16 a.toNat, Fin.ofNat 16 b.toNat, Fin.ofNat 16 c.toNat⟩ := by
  rw [registerArgs, assembleRegister]
  congr 1
  · rw [reg_write_of_le (by decide), reg_write_of_le (by decide), reg_write rfl]
  · rw [reg_write_of_le (by decide), reg_write rfl]
  · rw [reg_write rfl]

theorem opcodeOf_assembleImmediate (op : Opcode) (n : UInt8) (imm : Int16) :
    opcodeOf (assembleImmediate op n imm) = op.code := by
  rw [assembleImmediate, opcodeOf_write_below (by decide), opcodeOf_write_below (by decide),
    opcodeOf_write]

theorem immediateArgs_assembleImmediate (op : Opcode) (n : UInt8) (imm : Int16) :
    immediateArgs (assembleImmediate op n imm) = ⟨Fin.ofNat 16 n.toNat, imm.toBitVec⟩ := by
  have hwidth : imm16.width = 16 := rfl
  have hvalue : imm.toUInt16.toUInt32.toNat = imm.toBitVec.toNat := rfl
  rw [immediateArgs, assembleImmediate]
  congr 1
  · rw [reg_write_of_le (by decide), reg_write rfl]
  · apply BitVec.eq_of_toNat_eq
    have := imm.toBitVec.isLt
    rw [BitVec.toNat_setWidth, UInt32.toNat_toBitVec, BitRange.toNat_read_write, hwidth, hvalue]
    omega

theorem opcodeOf_assembleJump (op : Opcode) (imm : Int32) :
    opcodeOf (assembleJump op imm) = op.code := by
  rw [assembleJump, opcodeOf_write_below (by decide), opcodeOf_write]

theorem jumpArgs_assembleJump (op : Opcode) (imm : Int32) :
    jumpArgs (assembleJump op imm) = ⟨imm.toBitVec.setWidth 24⟩ := by
  have hwidth : imm24.width = 24 := rfl
  have hvalue : imm.toUInt32.toNat = imm.toBitVec.toNat := rfl
  rw [jumpArgs, assembleJump]
  congr 1
  apply BitVec.eq_of_toNat_eq
  rw [BitVec.toNat_setWidth, UInt32.toNat_toBitVec, BitRange.toNat_read_write, hwidth, hvalue,
    Nat.mod_mod, BitVec.toNat_setWidth]

/-! ## Assembling what was read -/

theorem toUInt32_opcodeOf (w : UInt32) : (opcodeOf w).toUInt32 = opcode.read w := by
  have hwidth : opcode.width = 8 := rfl
  apply UInt32.toNat_inj.mp
  rw [UInt8.toNat_toUInt32, opcodeOf, UInt32.toNat_toUInt8, BitRange.toNat_read, hwidth]
  omega

/-- A register number that was read from a field is the field. -/
theorem toUInt32_reg {field : BitRange} (hwidth : field.width = 4) (w : UInt32) :
    (UInt8.ofNat (reg field w)).toUInt32 = field.read w := by
  apply UInt32.toNat_inj.mp
  rw [UInt8.toNat_toUInt32, UInt8.toNat_ofNat', reg, Fin.val_ofNat, BitRange.toNat_read, hwidth]
  omega

theorem toUInt32_imm (w : UInt32) :
    (Int16.ofBitVec (immediateArgs w).imm).toUInt16.toUInt32 = imm16.read w := by
  have hwidth : imm16.width = 16 := rfl
  have hvalue : (Int16.ofBitVec (immediateArgs w).imm).toUInt16.toUInt32.toNat =
      ((imm16.read w).toBitVec.setWidth 16).toNat := rfl
  apply UInt32.toNat_inj.mp
  rw [hvalue, BitVec.toNat_setWidth, UInt32.toNat_toBitVec, BitRange.toNat_read, hwidth,
    Nat.mod_mod]

/-- The low bits of a long immediate with its sign extended are the immediate. -/
theorem setWidth_value (args : JumpArgs) : args.value.toBitVec.setWidth 24 = args.imm := by
  apply BitVec.eq_of_toInt_eq
  rw [toInt_setWidth_toBitVec _ (by decide), args.toInt_value]
  exact Int.bmod_eq_of_le_mul_two (by have := args.imm.le_toInt; omega)
    (by have := args.imm.toInt_lt; omega)

theorem write_value (w x : UInt32) :
    imm24.write x (jumpArgs w).value.toUInt32 = imm24.write x (imm24.read w) := by
  apply BitRange.write_congr
  have hbits := congrArg BitVec.toNat (setWidth_value (jumpArgs w))
  rwa [jumpArgs, BitVec.toNat_setWidth, BitVec.toNat_setWidth] at hbits

/-- An operation code that was read, assembled again. -/
theorem write_opcodeOf (w : UInt32) : opcode.write 0 (opcodeOf w).toUInt32 = w &&& 0xFF000000 := by
  have hcopy := opcode.write_read_and w 0
  rw [UInt32.and_zero] at hcopy
  rw [toUInt32_opcodeOf, hcopy]
  rfl

end Layout

namespace Instruction

open Layout

/-! ## Instructions and words -/

/-- **An instruction is that of its word.** -/
theorem decode_encode (i : Instruction) : decode i.encode = .ok i := by
  have hreg : ∀ r : Reg, Fin.ofNat 16 (UInt8.ofNat r).toNat = r := by decide
  cases i with
  | bare op =>
      rw [encode, decode, opcodeOf_assembleRegister, Opcode.ofCode?_code]
      rfl
  | register op args =>
      rw [encode, decode, opcodeOf_assembleRegister, Opcode.ofCode?_code]
      change Except.ok (register op _) = _
      rw [registerArgs_assembleRegister, hreg, hreg, hreg]
  | immediate op args =>
      rw [encode, decode, opcodeOf_assembleImmediate, Opcode.ofCode?_code]
      change Except.ok (immediate op _) = _
      rw [immediateArgs_assembleImmediate, hreg]
      rfl
  | jump op args =>
      rw [encode, decode, opcodeOf_assembleJump, Opcode.ofCode?_code]
      change Except.ok (jump op _) = _
      rw [jumpArgs_assembleJump, setWidth_value]

/-- **A word is that of its instruction**, but for the bits that the format leaves
over, which the instruction's word has clear. -/
theorem encode_decode {w : UInt32} {i : Instruction} (h : decode w = .ok i) :
    i.encode = w &&& i.opcode.usedBits := by
  have hcode := opcode_of_decode h
  unfold decode at h
  split at h
  · cases h
  · cases h
    rw [encode, assembleRegister, hcode, write_opcodeOf]
    change rs2.write (rs1.write (rd.write (w &&& 0xFF000000) 0) 0) 0 = _
    rw [BitRange.write_zero_and, BitRange.write_zero_and, BitRange.write_zero_and]
    rfl
  · cases h
    rw [encode, assembleRegister, hcode, write_opcodeOf]
    change rs2.write (rs1.write (rd.write (w &&& 0xFF000000)
      (UInt8.ofNat (reg rd w)).toUInt32) (UInt8.ofNat (reg rs1 w)).toUInt32)
      (UInt8.ofNat (reg rs2 w)).toUInt32 = _
    rw [toUInt32_reg rfl, toUInt32_reg rfl, toUInt32_reg rfl, BitRange.write_read_and,
      BitRange.write_read_and, BitRange.write_read_and]
    rfl
  · cases h
    rw [encode, assembleImmediate, hcode, write_opcodeOf, toUInt32_imm]
    change imm16.write (rd.write (w &&& 0xFF000000) (UInt8.ofNat (reg rd w)).toUInt32) _ = _
    rw [toUInt32_reg rfl, BitRange.write_read_and, BitRange.write_read_and]
    rfl
  · cases h
    rw [encode, assembleJump, hcode, write_opcodeOf, write_value, BitRange.write_read_and]
    rfl

/-- A word whose top byte is the code of an operation decodes to that operation. -/
theorem exists_decode {w : UInt32} {op : Opcode} (h : op.code.toNat = w.toNat / 2 ^ 24) :
    ∃ i, decode w = .ok i ∧ i.opcode = op := by
  have hcode : opcodeOf w = op.code :=
    UInt8.toNat_inj.mp ((toNat_opcodeOf w).trans h.symm)
  unfold decode
  rw [hcode, Opcode.ofCode?_code]
  cases op with
  | bare op => exact ⟨_, rfl, rfl⟩
  | register op => exact ⟨_, rfl, rfl⟩
  | immediate op => exact ⟨_, rfl, rfl⟩
  | jump op => exact ⟨_, rfl, rfl⟩

/-- A word has no operation when its top byte is nowhere in the table. -/
theorem ofCode?_opcodeOf_eq_none_iff {w : UInt32} :
    Opcode.ofCode? (opcodeOf w) = none ↔ ∀ op ∈ Opcode.all, op.code.toNat ≠ w.toNat / 2 ^ 24 := by
  rw [Opcode.ofCode?, List.find?_eq_none]
  simp only [beq_iff_eq, ← toNat_opcodeOf, ne_eq, UInt8.toNat_inj]

/-! ## Main result -/

/-- **Encoding and decoding are inverse to each other.**

The operands of an instruction are exactly the registers and the numbers that fit
their fields, and every instruction is that of its word.

A word fails to decode exactly when its top byte is not in the table, and the
failure names that byte and the word.  Otherwise it decodes to an instruction of
that operation, whose word is the given one with the bits cleared that the format
does not use; it is the given word exactly when these were clear.

Raw operands can be read off an assembled word: the operation, register numbers
modulo sixteen, the short immediate, and of the long one the low twenty-four bits
with their sign. -/
theorem encode_decode_inverse :
    (∀ rd z, (∃! args : ImmediateArgs, args.rd = rd ∧ args.value.toInt = z) ↔
      -2 ^ 15 ≤ z ∧ z < 2 ^ 15) ∧
    (∀ z, (∃! args : JumpArgs, args.value.toInt = z) ↔ -2 ^ 23 ≤ z ∧ z < 2 ^ 23) ∧
    (∀ i, decode i.encode = .ok i) ∧
    (∀ w e, decode w = .error e ↔
      (∀ op ∈ Opcode.all, op.code.toNat ≠ w.toNat / 2 ^ 24) ∧
        e = ⟨UInt8.ofNat (w.toNat / 2 ^ 24), w⟩) ∧
    (∀ w, ∀ op ∈ Opcode.all, op.code.toNat = w.toNat / 2 ^ 24 →
      ∃ i, decode w = .ok i ∧ i.opcode = op ∧ i.encode = w &&& op.usedBits ∧
        (i.encode = w ↔ w &&& ~~~op.usedBits = 0)) ∧
    (∀ op a b c, let w := assembleRegister op a b c
      opcodeOf w = op.code ∧ (registerArgs w).rd.val = a.toNat % 16 ∧
        (registerArgs w).rs1.val = b.toNat % 16 ∧ (registerArgs w).rs2.val = c.toNat % 16) ∧
    (∀ op a imm, let w := assembleImmediate op a imm
      opcodeOf w = op.code ∧ (immediateArgs w).rd.val = a.toNat % 16 ∧
        (immediateArgs w).value.toInt = imm.toInt) ∧
    (∀ op imm, let w := assembleJump op imm
      opcodeOf w = op.code ∧ (jumpArgs w).value.toInt = imm.toInt.bmod (2 ^ 24)) := by
  refine ⟨ImmediateArgs.existsUnique_value, JumpArgs.existsUnique_value, decode_encode, ?_, ?_,
    ?_, ?_, ?_⟩
  · intro w e
    have hbyte : UInt8.ofNat (w.toNat / 2 ^ 24) = opcodeOf w := by
      rw [← toNat_opcodeOf, UInt8.ofNat_toNat]
    rw [decode_eq_error_iff, ofCode?_opcodeOf_eq_none_iff, hbyte]
  · intro w op _ hop
    obtain ⟨i, hdecode, rfl⟩ := exists_decode hop
    have hword := encode_decode hdecode
    refine ⟨i, hdecode, rfl, hword, ?_⟩
    rw [hword, Word.and_eq_self_iff]
  · intro op a b c
    refine ⟨opcodeOf_assembleRegister op a b c, ?_⟩
    rw [registerArgs_assembleRegister]
    exact ⟨rfl, rfl, rfl⟩
  · intro op a imm
    refine ⟨opcodeOf_assembleImmediate op a imm, ?_⟩
    rw [ImmediateArgs.toInt_value, immediateArgs_assembleImmediate]
    exact ⟨rfl, rfl⟩
  · intro op imm
    refine ⟨opcodeOf_assembleJump op imm, ?_⟩
    rw [JumpArgs.toInt_value, jumpArgs_assembleJump]
    exact toInt_setWidth_toBitVec imm (by decide)

/-- A bit above the twenty-fourth is lost, and the twenty-fourth is the sign. -/
example : (jumpArgs (assembleJump (.jump .jmp) 0x1FFFFFC)).value = -4 := by decide

end Instruction

end SandboxCpu
