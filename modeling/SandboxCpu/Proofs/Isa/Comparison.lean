import SandboxCpu.Proofs.Alu.Checked
import SandboxCpu.Proofs.Machine.Bookkeeping

/-!
# Two ways to compare

A guest can compare two words in two ways.  It can subtract them for the sake of the flags
alone and go on by a branch, or it can have the answer put into a register.  The one way
looks at the bits of a difference, the other compares numbers, and nothing in the code
makes them agree.

They do, because the flags after a subtraction tell how its terms compare
(`Flags.Compare`).  The zero flag tells whether they are equal, and the carry which of them
is smaller without a sign.  With a sign it takes two flags: the difference has the sign that
it should have, unless it left the range, and then it has the other one.

How long the comparison is ago makes no difference.  All that is said of the machine after
it holds of every machine with its flags and the two registers (`Agrees.of_compare`).

## Main results

* `Alu.compare_apply_sub`: the flags after a subtraction.
* `Sets.of_condition`, `Branches.of_taken`: what set operations and branches go by, for an
  execution and for a call of `step`.
* `comparisons_agree`: the two ways agree.
-/

namespace SandboxCpu

open Word

/-! ## Flags -/

/-- The flags tell how two words compare. -/
structure Flags.Compare (f : Flags) (a b : UInt32) : Prop where
  zero : f.zero = true ↔ a = b
  carry : f.carry = true ↔ a.toNat < b.toNat
  /-- An overflow turns the sign round. -/
  less : f.negative ≠ f.overflow ↔ signed a < signed b

/-- A subtraction leaves flags that tell how its terms compare. -/
theorem Alu.compare_apply_sub (a b : UInt32) (f : Flags) :
    ((sub a b).apply f).Compare a b := by
  have htells := sub_tells a b
  rw [apply_eq]
  refine ⟨?_, carry_sub_iff a b, ?_⟩
  · have hvalue := htells.value
    rw [unsigned, unsigned] at hvalue
    have ha := a.toNat_lt
    have hb := b.toNat_lt
    rw [decide_eq_true_iff, ← UInt32.toNat_inj, ← UInt32.toNat_inj, UInt32.toNat_zero]
    omega
  · have hvalue := htells.value_signed
    have hoverflow := htells.overflow
    have ha := signed_bounds a
    have hb := signed_bounds b
    have hsign : signed (sub a b).value < 0 ↔ 2 ^ 31 ≤ (sub a b).value.toNat := by
      have := (sub a b).value.toNat_lt
      rw [signed]
      split <;> omega
    show ¬ decide (signed (sub a b).value < 0) = (sub a b).overflow ↔ _
    rw [Bool.eq_iff_iff, decide_eq_true_iff, hsign, hoverflow]
    omega

/-- A truth is stored as one, and its contrary as zero. -/
theorem Cpu.reg_setTruth (c : Cpu) (rd : Reg) {b : Bool} {p : Prop}
    (h : b = true ↔ p) :
    ((c.setTruth rd b).reg rd = 1 ↔ p) ∧ ((c.setTruth rd b).reg rd = 0 ↔ ¬ p) := by
  rw [Cpu.setTruth, Cpu.reg_setReg, if_pos rfl, ← h]
  cases b <;> decide

namespace Machine

variable {κ : Type} [Console κ] {m n : Machine κ}

/-! ## Set operations -/

/-- An operation puts one into its destination exactly if something holds, and zero
otherwise: when it is executed, at any address, and when a call of `step` executes it. -/
structure Sets (m : Machine κ) (op : RegisterOp) (args : RegisterArgs) (p : Prop) : Prop where
  executed : ∀ pc, ∃ n, (InPlace.execute pc (.register op args)).on m = (.ok .next, n) ∧
    (n.cpu.reg args.rd = 1 ↔ p) ∧ (n.cpu.reg args.rd = 0 ↔ ¬ p)
  stepped : m.instruction = some (.register op args) →
    (m.step.2.cpu.reg args.rd = 1 ↔ p) ∧ (m.step.2.cpu.reg args.rd = 0 ↔ ¬ p)

/-- What an operation finds out about its sources it puts into its destination. -/
theorem Sets.of_condition {op : RegisterOp} {args : RegisterArgs} {p : Prop}
    (condition : UInt32 → UInt32 → Bool)
    (hop : ∀ (m : Machine κ) pc, m.executeRegister pc op args =
      .ok (m.withCpu (m.cpu.setTruth args.rd
        (condition (m.cpu.reg args.rs1) (m.cpu.reg args.rs2)))))
    (hp : condition (m.cpu.reg args.rs1) (m.cpu.reg args.rs2) = true ↔ p) :
    m.Sets op args p := by
  have htruth := m.cpu.reg_setTruth args.rd hp
  constructor
  · intro pc
    refine ⟨m.withCpu (m.cpu.setTruth args.rd
      (condition (m.cpu.reg args.rs1) (m.cpu.reg args.rs2))), ?_, htruth⟩
    rw [InPlace.on_execute, execute, hop]
    rfl
  · intro h
    obtain ⟨flow, n, hexecute, hcpu, -⟩ := step_of_instruction h
    rw [execute, hop] at hexecute
    cases hexecute
    rw [hcpu]
    exact htruth

/-! ## Branches -/

/-- A branch is taken exactly if something holds: when it is executed, at any address, and
when a call of `step` executes it.  Otherwise execution goes on behind it. -/
structure Branches (m : Machine κ) (op : JumpOp) (p : Prop) : Prop where
  executed : ∀ pc args,
    (p → (InPlace.execute pc (.jump op args)).on m = (.ok (.jump args.target), m)) ∧
    (¬ p → (InPlace.execute pc (.jump op args)).on m = (.ok .next, m))
  stepped : ∀ args, m.instruction = some (.jump op args) →
    (p → m.step.2.cpu.pc = args.target) ∧ (¬ p → m.step.2.cpu.pc = m.cpu.pc + 4)

theorem execute_branch {op : JumpOp} (hop : op ≠ .call) (m : Machine κ) (pc : UInt32)
    (args : JumpArgs) :
    m.execute pc (.jump op args) =
      .ok (if op.taken m.cpu.flags then .jump args.target else .next, m) := by
  cases op with
  | call => exact absurd rfl hop
  | jmp | jz | jnz | jc | jnc => rfl

/-- A branch goes by the flags alone. -/
theorem Branches.of_taken {op : JumpOp} {p : Prop} (hop : op ≠ .call)
    (hp : op.taken m.cpu.flags = true ↔ p) : m.Branches op p := by
  constructor
  · intro pc args
    rw [InPlace.on_execute, execute_branch hop]
    refine ⟨fun h => ?_, fun h => ?_⟩
    · rw [if_pos (hp.mpr h)]
      rfl
    · rw [if_neg (mt hp.mp h)]
      rfl
  · intro args hinstruction
    obtain ⟨flow, n, hexecute, hcpu, -⟩ := step_of_instruction hinstruction
    rw [execute_branch hop] at hexecute
    cases hexecute
    rw [hcpu]
    refine ⟨fun h => ?_, fun h => ?_⟩
    · show (if op.taken m.cpu.flags then Flow.jump args.target else .next).nextPc _ = _
      rw [if_pos (hp.mpr h)]
      rfl
    · show (if op.taken m.cpu.flags then Flow.jump args.target else .next).nextPc _ = _
      rw [if_neg (mt hp.mp h)]
      rfl

/-! ## Agreement -/

/-- On a machine, set operations find out about two registers what the flags have to say, and
branches go by how the contents compare. -/
structure Agrees (m : Machine κ) (r s : Reg) (a b : UInt32) : Prop where
  /-- The negative flag differs from the overflow flag for the smaller of two signed
  numbers. -/
  less : m.cpu.flags.negative ≠ m.cpu.flags.overflow ↔ signed a < signed b
  slt : ∀ rd, m.Sets .slt ⟨rd, r, s⟩ (m.cpu.flags.negative ≠ m.cpu.flags.overflow)
  sle : ∀ rd, m.Sets .sle ⟨rd, r, s⟩
    (m.cpu.flags.zero = true ∨ m.cpu.flags.negative ≠ m.cpu.flags.overflow)
  seq : ∀ rd, m.Sets .seq ⟨rd, r, s⟩ (m.cpu.flags.zero = true)
  sne : ∀ rd, m.Sets .sne ⟨rd, r, s⟩ (m.cpu.flags.zero = false)
  jc : m.Branches .jc (a.toNat < b.toNat)
  jnc : m.Branches .jnc (¬ a.toNat < b.toNat)
  jz : m.Branches .jz (a = b)
  jnz : m.Branches .jnz (a ≠ b)

/-- Flags that tell how the contents of two registers compare are all that it takes. -/
theorem Agrees.of_compare {r s : Reg} {a b : UInt32} (h : m.cpu.flags.Compare a b)
    (hr : m.cpu.reg r = a) (hs : m.cpu.reg s = b) : m.Agrees r s a b := by
  subst hr hs
  have hzero : m.cpu.flags.zero = false ↔ ¬ m.cpu.reg r = m.cpu.reg s := by
    rw [← h.zero, Bool.not_eq_true]
  have hle : signed (m.cpu.reg r) ≤ signed (m.cpu.reg s) ↔
      m.cpu.reg r = m.cpu.reg s ∨ signed (m.cpu.reg r) < signed (m.cpu.reg s) := by
    rw [← signed_inj]
    omega
  exact {
    less := h.less
    slt := fun rd => .of_condition (fun a b => a.toInt32 < b.toInt32) (fun _ _ => rfl) (by
      rw [decide_eq_true_iff, lt_iff_signed, h.less])
    sle := fun rd => .of_condition (fun a b => a.toInt32 ≤ b.toInt32) (fun _ _ => rfl) (by
      rw [decide_eq_true_iff, le_iff_signed, h.less, h.zero, hle])
    seq := fun rd => .of_condition (fun a b => a = b) (fun _ _ => rfl) (by
      rw [decide_eq_true_iff, h.zero])
    sne := fun rd => .of_condition (fun a b => a ≠ b) (fun _ _ => rfl) (by
      rw [decide_eq_true_iff, hzero])
    jc := .of_taken nofun h.carry
    jnc := .of_taken nofun (by rw [JumpOp.taken, Bool.not_eq_true', ← Bool.not_eq_true, h.carry])
    jz := .of_taken nofun h.zero
    jnz := .of_taken nofun (by rw [JumpOp.taken, Bool.not_eq_true', hzero]) }

/-! ## Main result -/

/-- A call of `step` that compares two registers changes the flags alone, the program
counter apart. -/
theorem step_of_cmp {args : RegisterArgs} (h : m.instruction = some (.register .cmp args)) :
    m.step.2.cpu = { m.cpu with
      pc := m.cpu.pc + 4
      flags := (Alu.sub (m.cpu.reg args.rs1) (m.cpu.reg args.rs2)).apply m.cpu.flags } := by
  obtain ⟨flow, n, hexecute, hcpu, -⟩ := step_of_instruction h
  cases hexecute
  exact hcpu

/-- **Flags and set operations compare alike.**  On any machine and at any address, to
compare two registers changes nothing but the flags.  After that `slt` finds the first
register smaller exactly when the negative and the overflow flag differ; `sle`, when they
differ or the zero flag is set; `seq` and `sne`, when the zero flag is set and when it is
not.  And `jc` is taken exactly when the first register is smaller without a sign, `jz`
when the two are equal, `jnc` and `jnz` when not.

So it is when calls of `step` execute these instructions: the one that compares, and later
on any other, as long as the flags and the two registers are as they were left. -/
theorem comparisons_agree (m : Machine κ) (args : RegisterArgs) :
    (∀ pc, ∃ n, (InPlace.execute pc (.register .cmp args)).on m = (.ok .next, n) ∧
      n = m.withCpu { m.cpu with flags := n.cpu.flags } ∧
      n.Agrees args.rs1 args.rs2 (m.cpu.reg args.rs1) (m.cpu.reg args.rs2)) ∧
    (m.instruction = some (.register .cmp args) → ∀ n : Machine κ,
      n.cpu.flags = m.step.2.cpu.flags →
      n.cpu.reg args.rs1 = m.step.2.cpu.reg args.rs1 →
      n.cpu.reg args.rs2 = m.step.2.cpu.reg args.rs2 →
      n.Agrees args.rs1 args.rs2 (m.cpu.reg args.rs1) (m.cpu.reg args.rs2)) := by
  have hcompare := Alu.compare_apply_sub (m.cpu.reg args.rs1) (m.cpu.reg args.rs2) m.cpu.flags
  constructor
  · intro pc
    refine ⟨m.withCpu { m.cpu with
      flags := (Alu.sub (m.cpu.reg args.rs1) (m.cpu.reg args.rs2)).apply m.cpu.flags }, ?_, rfl,
      .of_compare hcompare rfl rfl⟩
    rw [InPlace.on_execute]
    rfl
  · intro h n hflags hfirst hsecond
    rw [step_of_cmp h] at hflags hfirst hsecond
    exact .of_compare (hflags ▸ hcompare) hfirst hsecond

/-- A machine about to compare the least signed number with one, and to do by the result
what there is to do. -/
def comparing : Machine QueueConsole :=
  (Machine.new {} {}).after
    [.load 0 (LittleEndian.image [0x41012000, 0x53000020, 0x43312000]),
      .setReg 1 0x80000000, .setReg 2 1]

/-- With a sign it is smaller, though the difference is not negative, and without a sign it is
not: the branch is not taken, and the register set. -/
theorem comparisons_agree_least :
    comparing.step.2.cpu.flags =
      { zero := false, negative := false, carry := false, overflow := true } ∧
    comparing.step.2.step.2.cpu.pc = 8 ∧
    comparing.step.2.step.2.step.2.cpu.reg 3 = 1 := by
  -- what the three calls execute and what they find, in one evaluation
  have hrun :
      comparing.instruction = some (.register .cmp ⟨0, 1, 2⟩) ∧
      ¬ (comparing.cpu.reg 1).toNat < (comparing.cpu.reg 2).toNat ∧
      comparing.step.2.instruction = some (.jump .jc ⟨0x20⟩) ∧
      comparing.step.2.cpu.pc + 4 = 8 ∧
      comparing.step.2.cpu.flags =
        { zero := false, negative := false, carry := false, overflow := true } ∧
      comparing.step.2.step.2.instruction = some (.register .slt ⟨3, 1, 2⟩) ∧
      comparing.step.2.step.2.cpu.flags = comparing.step.2.cpu.flags ∧
      comparing.step.2.step.2.cpu.registers = comparing.step.2.cpu.registers := by
    decide +kernel
  obtain ⟨hcmp, hnot, hjc, hpc, hflags, hslt, hkept, hregisters⟩ := hrun
  have hreg (r : Reg) : comparing.step.2.step.2.cpu.reg r = comparing.step.2.cpu.reg r := by
    rw [Cpu.reg, Cpu.reg, hregisters]
  have hagrees := (comparisons_agree comparing ⟨0, 1, 2⟩).2 hcmp
  have hafter := hagrees comparing.step.2 rfl rfl rfl
  have hlater := hagrees comparing.step.2.step.2 hkept (hreg 1) (hreg 2)
  refine ⟨hflags, ?_, ?_⟩
  · rw [(hafter.jc.stepped ⟨0x20⟩ hjc).2 hnot]
    exact hpc
  · refine ((hlater.slt 3).stepped hslt).1.mpr ?_
    rw [hkept, hflags]
    decide

end Machine

end SandboxCpu
