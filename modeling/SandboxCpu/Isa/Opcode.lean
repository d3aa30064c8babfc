/-!
# Operation codes

The operations of the processor, sorted by the operands they take, and the table that gives each its
code, mnemonic and format. The code is the top byte of an instruction word.

`Opcode.ofCode?_code` and `Opcode.code_of_ofCode?` say that the table reads both ways: codes are
pairwise distinct, and every byte in the table belongs to exactly one operation.
-/

namespace SandboxCpu

/-- Operations without operands. -/
inductive BareOp
  | nop | halt | ret | syscall
  deriving DecidableEq, Repr

/-- Operations on registers. -/
inductive RegisterOp
  | add | sub | mul | div | mod | neg
  | and | or | xor | not | shl | shr
  | load | store | loadb | storeb | push | pop
  | mov | cmp | test | slt | sle | seq | sne
  deriving DecidableEq, Repr

/-- Operations on a register and a 16-bit immediate. -/
inductive ImmediateOp
  | addi | loadi | lui
  deriving DecidableEq, Repr

/-- Operations with a 24-bit jump target. -/
inductive JumpOp
  | jmp | jz | jnz | jc | jnc | call
  deriving DecidableEq, Repr

/-- How the bits below the operation code are divided. -/
inductive Format
  /-- Up to three register numbers. -/
  | register
  /-- A register number and a 16-bit immediate. -/
  | immediate
  /-- A 24-bit immediate. -/
  | jump
  deriving DecidableEq, Repr

/-- The one-letter name of a format. -/
def Format.letter : Format → String
  | register => "R"
  | immediate => "I"
  | jump => "J"

/-- An operation of the processor. -/
inductive Opcode
  | bare (op : BareOp)
  | register (op : RegisterOp)
  | immediate (op : ImmediateOp)
  | jump (op : JumpOp)
  deriving DecidableEq, Repr

namespace Opcode

/-- Every operation, by increasing code. -/
def all : List Opcode :=
  [.bare .nop, .bare .halt,
   .register .add, .register .sub, .register .mul, .register .div, .register .mod, .register .neg,
   .immediate .addi,
   .register .and, .register .or, .register .xor, .register .not, .register .shl, .register .shr,
   .register .load, .register .store, .register .loadb, .register .storeb,
   .immediate .loadi, .immediate .lui, .register .push, .register .pop,
   .register .mov, .register .cmp, .register .test, .register .slt, .register .sle, .register .seq,
   .register .sne,
   .jump .jmp, .jump .jz, .jump .jnz, .jump .jc, .jump .jnc, .jump .call, .bare .ret,
   .bare .syscall]

/-- The code of an operation: the top byte of its instruction words. -/
def code : Opcode → UInt8
  | bare .nop => 0x00
  | bare .halt => 0x01
  | register .add => 0x10
  | register .sub => 0x11
  | register .mul => 0x12
  | register .div => 0x13
  | register .mod => 0x14
  | register .neg => 0x15
  | immediate .addi => 0x16
  | register .and => 0x20
  | register .or => 0x21
  | register .xor => 0x22
  | register .not => 0x23
  | register .shl => 0x24
  | register .shr => 0x25
  | register .load => 0x30
  | register .store => 0x31
  | register .loadb => 0x32
  | register .storeb => 0x33
  | immediate .loadi => 0x34
  | immediate .lui => 0x35
  | register .push => 0x36
  | register .pop => 0x37
  | register .mov => 0x40
  | register .cmp => 0x41
  | register .test => 0x42
  | register .slt => 0x43
  | register .sle => 0x44
  | register .seq => 0x45
  | register .sne => 0x46
  | jump .jmp => 0x50
  | jump .jz => 0x51
  | jump .jnz => 0x52
  | jump .jc => 0x53
  | jump .jnc => 0x54
  | jump .call => 0x55
  | bare .ret => 0x56
  | bare .syscall => 0xF0

/-- The name of an operation in a listing. -/
def mnemonic : Opcode → String
  | bare .nop => "nop"
  | bare .halt => "halt"
  | register .add => "add"
  | register .sub => "sub"
  | register .mul => "mul"
  | register .div => "div"
  | register .mod => "mod"
  | register .neg => "neg"
  | immediate .addi => "addi"
  | register .and => "and"
  | register .or => "or"
  | register .xor => "xor"
  | register .not => "not"
  | register .shl => "shl"
  | register .shr => "shr"
  | register .load => "load"
  | register .store => "store"
  | register .loadb => "loadb"
  | register .storeb => "storeb"
  | immediate .loadi => "loadi"
  | immediate .lui => "lui"
  | register .push => "push"
  | register .pop => "pop"
  | register .mov => "mov"
  | register .cmp => "cmp"
  | register .test => "test"
  | register .slt => "slt"
  | register .sle => "sle"
  | register .seq => "seq"
  | register .sne => "sne"
  | jump .jmp => "jmp"
  | jump .jz => "jz"
  | jump .jnz => "jnz"
  | jump .jc => "jc"
  | jump .jnc => "jnc"
  | jump .call => "call"
  | bare .ret => "ret"
  | bare .syscall => "syscall"

/-- The format of an operation's words. An operation without operands counts as one on registers
that it ignores. -/
def format : Opcode → Format
  | bare _ => .register
  | register _ => .register
  | immediate _ => .immediate
  | jump _ => .jump

/-- The operation with the given code. -/
def ofCode? (code : UInt8) : Option Opcode := all.find? (·.code == code)

theorem mem_all (op : Opcode) : op ∈ all := by
  rcases op with op | op | op | op <;> cases op <;> decide

theorem ofCode?_code (op : Opcode) : ofCode? op.code = some op := by
  rcases op with op | op | op | op <;> cases op <;> rfl

theorem code_of_ofCode? {code : UInt8} {op : Opcode} (h : ofCode? code = some op) :
    op.code = code := by
  simpa using List.find?_some h

end Opcode

end SandboxCpu
