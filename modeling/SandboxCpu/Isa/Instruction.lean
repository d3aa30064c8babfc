import SandboxCpu.Isa.Opcode
import SandboxCpu.Text.Hex
import SandboxCpu.Word.Field
/-!
# Instruction words

A word holds the operation code in bits 24 to 31 and below it, by format,

* register: destination in bits 20 to 23, sources in bits 16 to 19 and 12 to 15;
* immediate: destination in bits 20 to 23, a signed immediate in bits 0 to 15;
* jump: a signed immediate in bits 0 to 23, which is the absolute target once extended.

Operands have the width of their fields, so every value of `Instruction` has a word. Decoding
ignores the bits that a format leaves over, and encoding clears them.

## Main definitions

* `Instruction.decode`, which fails exactly on an operation code that is not in the table;
* `Instruction.encode`, through `assembleRegister`, `assembleImmediate` and `assembleJump`, which
  take raw operands and keep the bits that fit.
-/

namespace SandboxCpu

/-- The number of a register. -/
abbrev Reg := Fin 16

/-- The register of a number below sixteen. -/
def Reg.of (n : Nat) (h : n < 16 := by decide) : Reg := ⟨n, h⟩

/-! ## The fields of a word -/

namespace Layout

/-- Where the operation code lies. -/
def opcode : BitRange where
  start := 24
  stop := 32

/-- Where the destination register lies. -/
def rd : BitRange where
  start := 20
  stop := 24

/-- Where the first source register lies. -/
def rs1 : BitRange where
  start := 16
  stop := 20

/-- Where the second source register lies. -/
def rs2 : BitRange where
  start := 12
  stop := 16

/-- Where the short immediate lies. -/
def imm16 : BitRange where
  start := 0
  stop := 16

/-- Where the long immediate lies. -/
def imm24 : BitRange where
  start := 0
  stop := 24

end Layout

/-! ## Operands -/

/-- Three register numbers. -/
structure RegisterArgs where
  rd : Reg
  rs1 : Reg
  rs2 : Reg
  deriving DecidableEq, Repr

/-- A register number and a 16-bit immediate. -/
structure ImmediateArgs where
  /-- The destination, and the source where there is one. -/
  rd : Reg
  imm : BitVec 16
  deriving DecidableEq, Repr

/-- A 24-bit immediate. -/
structure JumpArgs where
  imm : BitVec 24
  deriving DecidableEq, Repr

/-- The immediate as a signed number. -/
def ImmediateArgs.value (args : ImmediateArgs) : Int32 :=
  signExtend { bits := 16 } (UInt32.ofBitVec (args.imm.setWidth 32))

/-- The immediate as a signed number. -/
def JumpArgs.value (args : JumpArgs) : Int32 :=
  signExtend { bits := 24 } (UInt32.ofBitVec (args.imm.setWidth 32))

/-- The absolute address to jump to. -/
def JumpArgs.target (args : JumpArgs) : UInt32 := args.value.toUInt32

namespace Layout

/-- The byte that holds a word's operation code. -/
def opcodeOf (word : UInt32) : UInt8 := (opcode.read word).toUInt8

/-- The register number in a field of four bits. -/
def reg (field : BitRange) (word : UInt32) : Reg := Fin.ofNat 16 (field.read word).toNat

/-- The register operands of a word, whatever its operation. -/
def registerArgs (word : UInt32) : RegisterArgs := ⟨reg rd word, reg rs1 word, reg rs2 word⟩

/-- The register and short immediate of a word, whatever its operation. -/
def immediateArgs (word : UInt32) : ImmediateArgs :=
  ⟨reg rd word, (imm16.read word).toBitVec.setWidth 16⟩

/-- The long immediate of a word, whatever its operation. -/
def jumpArgs (word : UInt32) : JumpArgs := ⟨(imm24.read word).toBitVec.setWidth 24⟩

end Layout

/-! ## Assembling words from raw operands -/

/-- A word in register format. Register numbers keep their low four bits. -/
def assembleRegister (op : Opcode) (rd rs1 rs2 : UInt8) : UInt32 :=
  let word := Layout.opcode.write 0 op.code.toUInt32
  let word := Layout.rd.write word rd.toUInt32
  let word := Layout.rs1.write word rs1.toUInt32
  Layout.rs2.write word rs2.toUInt32

/-- A word in immediate format. The register number keeps its low four bits. -/
def assembleImmediate (op : Opcode) (rd : UInt8) (imm : Int16) : UInt32 :=
  let word := Layout.opcode.write 0 op.code.toUInt32
  let word := Layout.rd.write word rd.toUInt32
  Layout.imm16.write word imm.toUInt16.toUInt32

/-- A word in jump format. The immediate keeps its low 24 bits. -/
def assembleJump (op : Opcode) (imm : Int32) : UInt32 :=
  Layout.imm24.write (Layout.opcode.write 0 op.code.toUInt32) imm.toUInt32

/-! ## Instructions -/

/-- A decoded instruction: an operation with operands of its format. -/
inductive Instruction
  | bare (op : BareOp)
  | register (op : RegisterOp) (args : RegisterArgs)
  | immediate (op : ImmediateOp) (args : ImmediateArgs)
  | jump (op : JumpOp) (args : JumpArgs)
  deriving DecidableEq, Repr

/-- A word whose operation code is not in the table. -/
structure UnknownOpcode where
  opcode : UInt8
  word : UInt32
  deriving DecidableEq, Repr

/-- The wording of a decoding error. -/
def UnknownOpcode.message (e : UnknownOpcode) : String :=
  "未知操作码 " ++ Text.hex0x 2 e.opcode.toNat ++ " (指令 " ++ Text.word e.word ++ ")"

namespace Instruction

/-- The operation of an instruction. -/
def opcode : Instruction → Opcode
  | bare op => .bare op
  | register op _ => .register op
  | immediate op _ => .immediate op
  | jump op _ => .jump op

/-- Reads a word as an instruction. Bits that the format leaves over do not matter. -/
def decode (word : UInt32) : Except UnknownOpcode Instruction :=
  match Opcode.ofCode? (Layout.opcodeOf word) with
  | none => .error ⟨Layout.opcodeOf word, word⟩
  | some (.bare op) => .ok (bare op)
  | some (.register op) => .ok (register op (Layout.registerArgs word))
  | some (.immediate op) => .ok (immediate op (Layout.immediateArgs word))
  | some (.jump op) => .ok (jump op (Layout.jumpArgs word))

/-- The word of an instruction; bits that the format leaves over are zero. -/
def encode (i : Instruction) : UInt32 :=
  match i with
  | bare _ => assembleRegister i.opcode 0 0 0
  | register _ args =>
    assembleRegister i.opcode (UInt8.ofNat args.rd) (UInt8.ofNat args.rs1) (UInt8.ofNat args.rs2)
  | immediate _ args =>
    assembleImmediate i.opcode (UInt8.ofNat args.rd) (Int16.ofBitVec args.imm)
  | jump _ args => assembleJump i.opcode args.value

/-- Decoding fails exactly when the top byte is no operation code, and names that byte. -/
theorem decode_eq_error_iff {word : UInt32} {e : UnknownOpcode} :
    decode word = .error e ↔
      Opcode.ofCode? (Layout.opcodeOf word) = none ∧ e = ⟨Layout.opcodeOf word, word⟩ := by
  unfold decode
  cases h : Opcode.ofCode? (Layout.opcodeOf word) with
  | none => simp [eq_comm]
  | some op => rcases op with op | op | op | op <;> simp

/-- A decoded instruction carries the operation that the top byte names. -/
theorem opcode_of_decode {word : UInt32} {i : Instruction} (h : decode word = .ok i) :
    i.opcode.code = Layout.opcodeOf word := by
  unfold decode at h
  cases hc : Opcode.ofCode? (Layout.opcodeOf word) with
  | none => simp [hc] at h
  | some op =>
    rw [← Opcode.code_of_ofCode? hc]
    rcases op with op | op | op | op <;> simp only [hc, Except.ok.injEq] at h <;> subst h <;> rfl

end Instruction

end SandboxCpu
