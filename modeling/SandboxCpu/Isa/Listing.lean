import SandboxCpu.Isa.Instruction
import SandboxCpu.Word.LittleEndian
/-!
# Listings

The text of instructions. Each operation shows the operands that it uses and no others, in the order
destination, first source, second source; a word that is no instruction is shown as a number.

A listing line puts the address and the word before the text, and a listing has one line for each
whole word of an image.
-/

namespace SandboxCpu

namespace Listing

/-- The name of a register. -/
def reg (r : Reg) : String := "r" ++ toString r.val

/-- The operand text of an operation on registers. -/
def registerOperands (op : RegisterOp) (args : RegisterArgs) : String :=
  match op with
  | .neg | .not | .mov => reg args.rd ++ ", " ++ reg args.rs1
  | .cmp | .test => reg args.rs1 ++ ", " ++ reg args.rs2
  | .push => reg args.rs1
  | .pop => reg args.rd
  | _ => reg args.rd ++ ", " ++ reg args.rs1 ++ ", " ++ reg args.rs2

/-- The operand text of an operation with an immediate: bits for the operation that fills the upper
half of a register, a signed number for the others. -/
def immediateOperands (op : ImmediateOp) (args : ImmediateArgs) : String :=
  match op with
  | .lui => reg args.rd ++ ", " ++ Text.hex0x 4 args.imm.toNat
  | .addi | .loadi => reg args.rd ++ ", " ++ toString args.value.toInt

/-- The text of an instruction. -/
def instruction (i : Instruction) : String :=
  match i with
  | .bare _ => i.opcode.mnemonic
  | .register op args => i.opcode.mnemonic ++ " " ++ registerOperands op args
  | .immediate op args => i.opcode.mnemonic ++ " " ++ immediateOperands op args
  | .jump _ args => i.opcode.mnemonic ++ " " ++ Text.hex0x 6 args.target.toNat

/-- The text of a word: its instruction, or the word itself when it has none. -/
def disassemble (word : UInt32) : String :=
  match Instruction.decode word with
  | .ok i => instruction i
  | .error _ => ".word " ++ Text.word word

/-- A listing line: the address, the word and its text. -/
def line (word address : UInt32) : String :=
  Text.address address ++ ": " ++ Text.hex 8 word.toNat ++ "    " ++ disassemble word

/-- The lines of an image that starts at the given address. Addresses wrap around, and bytes left
over after the last whole word have no line. -/
def ofImage (image : List UInt8) (start : UInt32) : List String :=
  (LittleEndian.words image).mapIdx fun i word => line word (start + UInt32.ofNat (4 * i))

end Listing

end SandboxCpu
