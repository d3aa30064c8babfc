import Mathlib.Data.List.Nodup
import SandboxCpu.Isa.Listing
import SandboxCpu.Machine.Execute
import SandboxCpu.Proofs.Isa.Encoding
import SandboxCpu.Proofs.Text.Written

/-!
# What the text of an instruction tells

Operations leave out of their text the operands that they have no use for.  What is
left of an instruction then, its operation, the registers that it works with, and its
number, are its *essentials*.  Two things are shown of them.  Execution depends on
nothing else, so that the operands left out never matter (`executeRegister_congr`).
And the text tells them, so that nothing that matters is lost or confused
(`instruction_eq_iff`).

The text is taken apart from left to right: no mnemonic has a blank in it, and
no register a comma.  The number is written in one of three ways, bits for the
operation that fills the upper half of a register, an address for jumps and a signed
number for the others, and each is one-to-one where it is used.

## Main results

* `executeRegister_congr`: operands that the text leaves out do not matter.
* `instruction_eq_iff`: the text tells the essentials, and them only.
* `disassembly_faithful`: words with the same text do the same.
-/

namespace SandboxCpu

/-! ## What counts of an instruction -/

/-- The registers that an operation works with, in the order of its text. -/
def RegisterOp.operands (op : RegisterOp) (args : RegisterArgs) : List Reg :=
  match op with
  | .neg | .not | .mov => [args.rd, args.rs1]
  | .cmp | .test => [args.rs1, args.rs2]
  | .push => [args.rs1]
  | .pop => [args.rd]
  | _ => [args.rd, args.rs1, args.rs2]

/-- What counts of an instruction. -/
structure Essentials where
  opcode : Opcode
  registers : List Reg
  /-- The immediate, if there is one. -/
  number : Option Int
  deriving DecidableEq, Repr

/-- What counts of an instruction: registers that its operation ignores are left out. -/
def Instruction.essentials (i : Instruction) : Essentials :=
  match i with
  | .bare op => ⟨.bare op, [], none⟩
  | .register op args => ⟨.register op, op.operands args, none⟩
  | .immediate op args => ⟨.immediate op, [args.rd], some args.value.toInt⟩
  | .jump op args => ⟨.jump op, [], some args.value.toInt⟩

theorem Instruction.opcode_essentials (i : Instruction) : i.essentials.opcode = i.opcode := by
  cases i <;> rfl

/-- An immediate is told by its number. -/
theorem ImmediateArgs.ext_of_value {args args' : ImmediateArgs} (hrd : args.rd = args'.rd)
    (hvalue : args.value.toInt = args'.value.toInt) : args = args' := by
  rcases args with ⟨rd, imm⟩
  rcases args' with ⟨rd', imm'⟩
  rw [toInt_value, toInt_value] at hvalue
  exact (ImmediateArgs.mk.injEq ..).mpr ⟨hrd, BitVec.eq_of_toInt_eq hvalue⟩

theorem JumpArgs.ext_of_value {args args' : JumpArgs}
    (hvalue : args.value.toInt = args'.value.toInt) : args = args' := by
  rcases args with ⟨imm⟩
  rcases args' with ⟨imm'⟩
  rw [toInt_value, toInt_value] at hvalue
  exact (JumpArgs.mk.injEq ..).mpr (BitVec.eq_of_toInt_eq hvalue)

/-! ## Execution -/

namespace InPlace

variable {κ : Type}

/-- An operation on registers takes no notice of the operands that it does not work
with. -/
theorem executeRegister_congr (pc : UInt32) {op : RegisterOp} {args args' : RegisterArgs}
    (h : op.operands args = op.operands args') :
    (executeRegister pc op args : InPlace κ Unit) = executeRegister pc op args' := by
  rcases args with ⟨rd, rs1, rs2⟩
  rcases args' with ⟨rd', rs1', rs2'⟩
  cases op with
  | not =>
      -- The second source is read here too, but nothing is made of it.
      cases h
      rfl
  | _ =>
      cases h
      rfl

/-- Nothing but the essentials of an instruction matters to its execution. -/
theorem execute_congr [Console κ] (pc : UInt32) {i j : Instruction}
    (h : i.essentials = j.essentials) : (execute pc i : InPlace κ Flow) = execute pc j := by
  cases i with
  | bare op =>
      cases j <;> cases h
      rfl
  | register op args =>
      cases j with
      | register op' args' =>
          obtain ⟨hop, hregs, -⟩ := Essentials.mk.inj h
          cases hop
          rw [execute, execute, executeRegister_congr pc hregs]
      | bare | immediate | jump => cases h
  | immediate op args =>
      cases j with
      | immediate op' args' =>
          obtain ⟨hop, hregs, hvalue⟩ := Essentials.mk.inj h
          cases hop
          cases ImmediateArgs.ext_of_value (List.singleton_inj.mp hregs) (Option.some.inj hvalue)
          rfl
      | bare | register | jump => cases h
  | jump op args =>
      cases j with
      | jump op' args' =>
          obtain ⟨hop, -, hvalue⟩ := Essentials.mk.inj h
          cases hop
          cases JumpArgs.ext_of_value (Option.some.inj hvalue)
          rfl
      | bare | register | immediate => cases h

end InPlace

/-! ## Mnemonics -/

namespace Opcode

/-- No two operations have the same name. -/
theorem mnemonic_inj {op op' : Opcode} : op.mnemonic = op'.mnemonic ↔ op = op' := by
  have hnodup : (all.map mnemonic).Nodup := by decide
  constructor
  · exact fun h => List.inj_on_of_nodup_map hnodup op.mem_all op'.mem_all h
  · exact fun h => h ▸ rfl

theorem blank_not_mem_mnemonic (op : Opcode) : ' ' ∉ op.mnemonic.toList := by
  have hall : ∀ op ∈ all, ' ' ∉ op.mnemonic.toList := by decide
  exact hall op op.mem_all

/-- The mark of a word without an instruction is the name of no operation. -/
theorem mnemonic_ne_word (op : Opcode) : op.mnemonic.toList ≠ ".word".toList := by
  have hall : ∀ op ∈ all, op.mnemonic.toList ≠ ".word".toList := by decide
  exact hall op op.mem_all

end Opcode

/-! ## Operands -/

namespace Listing

open Text

theorem reg_inj {r r' : Reg} : (reg r).toList = (reg r').toList ↔ r = r' := by
  have hall : ∀ r r' : Reg, (reg r).toList = (reg r').toList → r = r' := by decide
  exact ⟨hall r r', fun h => h ▸ rfl⟩

theorem comma_not_mem_reg (r : Reg) : ',' ∉ (reg r).toList := by
  have hall : ∀ r : Reg, ',' ∉ (reg r).toList := by decide
  exact hall r

/-- Registers as they are written behind another operand. -/
def moreRegs (rs : List Reg) : List Char := rs.flatMap fun r => ',' :: ' ' :: (reg r).toList

theorem head?_moreRegs (rs : List Reg) : ∀ c ∈ (moreRegs rs).head?, c = ',' := by
  cases rs with
  | nil => exact nofun
  | cons r rs =>
      rintro c hc
      cases hc
      rfl

theorem moreRegs_inj {rs rs' : List Reg} : moreRegs rs = moreRegs rs' ↔ rs = rs' := by
  constructor
  · intro h
    induction rs generalizing rs' with
    | nil =>
        cases rs' with
        | nil => rfl
        | cons r' rs' => cases h
    | cons r rs ih =>
        cases rs' with
        | nil => cases h
        | cons r' rs' =>
            -- Behind the comma and the blank stands a register, and then a comma or nothing.
            change ',' :: ' ' :: ((reg r).toList ++ moreRegs rs) =
              ',' :: ' ' :: ((reg r').toList ++ moreRegs rs') at h
            rw [List.cons.injEq, List.cons.injEq] at h
            obtain ⟨hfirst, hrest⟩ := cut_inj (comma_not_mem_reg r) (comma_not_mem_reg r')
              (head?_moreRegs rs) (head?_moreRegs rs') h.2.2
            rw [reg_inj.mp hfirst, ih hrest]
  · exact fun h => h ▸ rfl

/-- The operand text of an operation on registers has the registers that it works
with. -/
theorem moreRegs_operands (op : RegisterOp) (args : RegisterArgs) :
    moreRegs (op.operands args) = ',' :: ' ' :: (registerOperands op args).toList := by
  cases op <;>
    simp only [RegisterOp.operands, moreRegs, registerOperands, List.flatMap_cons,
      List.flatMap_nil, List.append_nil, List.cons_append, String.toList_append,
      List.append_assoc] <;> rfl

theorem registerOperands_inj {op : RegisterOp} {args args' : RegisterArgs} :
    registerOperands op args = registerOperands op args' ↔
      op.operands args = op.operands args' := by
  rw [← moreRegs_inj, moreRegs_operands, moreRegs_operands, List.cons.injEq, List.cons.injEq,
    String.toList_inj]
  exact ⟨fun h => ⟨rfl, rfl, h⟩, fun h => h.2.2⟩

/-- The number behind a register. -/
def numberText (op : ImmediateOp) (args : ImmediateArgs) : String :=
  match op with
  | .lui => hex0x 4 args.imm.toNat
  | .addi | .loadi => toString args.value.toInt

theorem toList_immediateOperands (op : ImmediateOp) (args : ImmediateArgs) :
    (immediateOperands op args).toList =
      (reg args.rd).toList ++ ',' :: ' ' :: (numberText op args).toList := by
  cases op <;>
    simp only [immediateOperands, numberText, String.toList_append, List.append_assoc] <;> rfl

/-- Both ways to write an immediate tell its number. -/
theorem numberText_inj {op : ImmediateOp} {args args' : ImmediateArgs} :
    numberText op args = numberText op args' ↔ args.value.toInt = args'.value.toInt := by
  cases op with
  | lui =>
      rw [numberText, numberText, hex0x_inj, ImmediateArgs.toInt_value, ImmediateArgs.toInt_value]
      exact ⟨fun h => congrArg BitVec.toInt (BitVec.eq_of_toNat_eq h),
        fun h => congrArg BitVec.toNat (BitVec.eq_of_toInt_eq h)⟩
  | addi | loadi =>
      rw [numberText, numberText, toString_int_inj]

/-- The same bits, written as bits and as a number. -/
example : numberText .lui ⟨1, 0xFFFF⟩ = "0xffff" ∧ numberText .addi ⟨1, 0xFFFF⟩ = "-1" := by
  decide

theorem immediateOperands_inj {op : ImmediateOp} {args args' : ImmediateArgs} :
    immediateOperands op args = immediateOperands op args' ↔ args = args' := by
  constructor
  · intro h
    have hlist := congrArg String.toList h
    rw [toList_immediateOperands, toList_immediateOperands] at hlist
    obtain ⟨hreg, hnumber⟩ := cut_inj (comma_not_mem_reg args.rd) (comma_not_mem_reg args'.rd)
      (by rintro c hc; cases hc; rfl) (by rintro c hc; cases hc; rfl) hlist
    rw [List.cons.injEq, List.cons.injEq, String.toList_inj, numberText_inj] at hnumber
    exact ImmediateArgs.ext_of_value (reg_inj.mp hreg) hnumber.2.2
  · exact fun h => h ▸ rfl

/-- A target is the immediate with its sign extended, and written as an address it still
tells the immediate. -/
theorem hex0x_target_inj {width : Nat} {args args' : JumpArgs} :
    hex0x width args.target.toNat = hex0x width args'.target.toNat ↔ args = args' := by
  constructor
  · intro h
    have htarget : args.target = args'.target := UInt32.toNat_inj.mp (hex0x_inj.mp h)
    exact JumpArgs.ext_of_value (congrArg (fun u : UInt32 => u.toBitVec.toInt) htarget)
  · exact fun h => h ▸ rfl

/-! ## Instructions -/

/-- What stands behind the mnemonic. -/
def operandText : Instruction → List Char
  | .bare _ => []
  | .register op args => ' ' :: (registerOperands op args).toList
  | .immediate op args => ' ' :: (immediateOperands op args).toList
  | .jump _ args => ' ' :: (hex0x 6 args.target.toNat).toList

theorem toList_instruction (i : Instruction) :
    (instruction i).toList = i.opcode.mnemonic.toList ++ operandText i := by
  cases i with
  | bare op => exact (List.append_nil _).symm
  | register | immediate | jump =>
      rw [instruction, String.toList_append, String.toList_append, List.append_assoc]
      rfl

theorem head?_operandText (i : Instruction) : ∀ c ∈ (operandText i).head?, c = ' ' := by
  rintro c hc
  cases i <;> cases hc
  all_goals rfl

/-- Behind the same mnemonic, the operand text tells what counts. -/
theorem operandText_inj {i j : Instruction} (hop : i.opcode = j.opcode) :
    operandText i = operandText j ↔ i.essentials = j.essentials := by
  cases i with
  | bare op =>
      cases j <;> cases hop
      exact iff_of_true rfl rfl
  | register op args =>
      cases j <;> cases hop
      rw [operandText, operandText, List.cons.injEq, String.toList_inj, registerOperands_inj,
        Instruction.essentials, Instruction.essentials, Essentials.mk.injEq]
      exact ⟨fun h => ⟨rfl, h.2, rfl⟩, fun h => ⟨rfl, h.2.1⟩⟩
  | immediate op args =>
      cases j <;> cases hop
      rename_i args'
      rw [operandText, operandText, List.cons.injEq, String.toList_inj, immediateOperands_inj,
        Instruction.essentials, Instruction.essentials, Essentials.mk.injEq]
      constructor
      · rintro ⟨-, rfl⟩
        exact ⟨rfl, rfl, rfl⟩
      · rintro ⟨-, hrd, hvalue⟩
        exact ⟨rfl, ImmediateArgs.ext_of_value (List.singleton_inj.mp hrd)
          (Option.some.inj hvalue)⟩
  | jump op args =>
      cases j <;> cases hop
      rename_i args'
      rw [operandText, operandText, List.cons.injEq, String.toList_inj, hex0x_target_inj,
        Instruction.essentials, Instruction.essentials, Essentials.mk.injEq]
      constructor
      · rintro ⟨-, rfl⟩
        exact ⟨rfl, rfl, rfl⟩
      · rintro ⟨-, -, hvalue⟩
        exact ⟨rfl, JumpArgs.ext_of_value (Option.some.inj hvalue)⟩

/-- **The text of an instruction tells its essentials.** -/
theorem instruction_eq_iff {i j : Instruction} :
    instruction i = instruction j ↔ i.essentials = j.essentials := by
  rw [← String.toList_inj, toList_instruction, toList_instruction]
  constructor
  · intro h
    obtain ⟨hname, htext⟩ := cut_inj i.opcode.blank_not_mem_mnemonic
      j.opcode.blank_not_mem_mnemonic (head?_operandText i) (head?_operandText j) h
    have hop : i.opcode = j.opcode := Opcode.mnemonic_inj.mp (String.toList_inj.mp hname)
    exact (operandText_inj hop).mp htext
  · intro h
    have hop : i.opcode = j.opcode := by
      rw [← i.opcode_essentials, h, j.opcode_essentials]
    rw [hop, (operandText_inj hop).mpr h]

/-- No instruction looks like a word without one. -/
theorem instruction_ne_word (i : Instruction) (w : UInt32) :
    instruction i ≠ ".word " ++ Text.word w := by
  intro h
  have hlist := congrArg String.toList h
  rw [toList_instruction, String.toList_append] at hlist
  have hword : (".word " : String).toList = ".word".toList ++ [' '] := by decide
  rw [hword, List.append_assoc] at hlist
  have hname := cut_inj i.opcode.blank_not_mem_mnemonic (by decide) (head?_operandText i)
    (by rintro c hc; cases hc; rfl) hlist
  exact i.opcode.mnemonic_ne_word hname.1

/-- Words without an instruction are told by their text. -/
theorem wordText_inj {w w' : UInt32} :
    ".word " ++ Text.word w = ".word " ++ Text.word w' ↔ w = w' := by
  constructor
  · intro h
    have hlist := congrArg String.toList h
    rw [String.toList_append, String.toList_append, List.append_cancel_left_eq,
      String.toList_inj] at hlist
    exact UInt32.toNat_inj.mp (hex0x_inj.mp hlist)
  · exact fun h => h ▸ rfl

/-! ## Main result -/

/-- **Disassembly is faithful.**  If two words have the same text, then either neither is
an instruction, and they are the same word; or both are instructions, with the same
operation on the same registers and the same number, and at any address and on any
machine they are executed alike: they fail with the same fault or go on in the
same way, and leave the same machine. -/
theorem disassembly_faithful {w w' : UInt32} (h : disassemble w = disassemble w') :
    ((∃ e, Instruction.decode w = .error e) ∧ (∃ e, Instruction.decode w' = .error e) ∧
      w = w') ∨
    ∃ i j, Instruction.decode w = .ok i ∧ Instruction.decode w' = .ok j ∧
      i.essentials = j.essentials ∧
      ∀ {κ : Type} [Console κ] (pc : UInt32) (m : Machine κ),
        (InPlace.execute pc i).on m = (InPlace.execute pc j).on m := by
  unfold disassemble at h
  cases hdecode : Instruction.decode w with
  | error e =>
      cases hdecode' : Instruction.decode w' with
      | error e' =>
          rw [hdecode, hdecode'] at h
          exact .inl ⟨⟨e, rfl⟩, ⟨e', rfl⟩, wordText_inj.mp h⟩
      | ok j =>
          rw [hdecode, hdecode'] at h
          exact absurd h.symm (instruction_ne_word j w)
  | ok i =>
      cases hdecode' : Instruction.decode w' with
      | error e' =>
          rw [hdecode, hdecode'] at h
          exact absurd h (instruction_ne_word i w')
      | ok j =>
          rw [hdecode, hdecode'] at h
          have hsame := instruction_eq_iff.mp h
          refine .inr ⟨i, j, rfl, rfl, hsame, fun pc m => ?_⟩
          rw [InPlace.execute_congr pc hsame]

/-- A negation has no use for a second source, nor for the bits below it. -/
theorem disassembly_faithful_neg :
    disassemble 0x15123FFF = disassemble 0x15120000 ∧
      ∃ i j, Instruction.decode 0x15123FFF = .ok i ∧ Instruction.decode 0x15120000 = .ok j ∧
        i ≠ j ∧ ∀ m : Machine QueueConsole,
          (InPlace.execute 0 i).on m = (InPlace.execute 0 j).on m := by
  have htext : disassemble 0x15123FFF = disassemble 0x15120000 := by decide
  have hdiffer : ∀ i j, Instruction.decode 0x15123FFF = .ok i →
      Instruction.decode 0x15120000 = .ok j → i ≠ j := by
    rintro i j hi hj rfl
    exact absurd (hi.trans hj.symm) (by decide)
  obtain ⟨⟨e, herror⟩, -⟩ | ⟨i, j, hi, hj, -, hexecute⟩ := disassembly_faithful htext
  · cases herror
  · exact ⟨htext, i, j, hi, hj, hdiffer i j hi hj, fun m => hexecute 0 m⟩

end Listing

end SandboxCpu
