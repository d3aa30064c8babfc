import SandboxCpu.Proofs.Machine.Bookkeeping

/-!
# The stack

A `push` and the `pop` that undoes it, or a `call` and its `ret`, put a word on the stack
and take it off again.  Between the two there may be more of the same, and so on, which
is what it means that instructions are properly *nested* (`Nested`).

Each of these four instructions moves one word (`Pushed`, `Popped`).  The word lies below
the stack pointer while it is on the stack, and what is pushed after it lies below it in
turn.  So nested instructions leave everything from the stack pointer on as it was, the
stack pointer itself included (`Restored`), and the word that is taken off is the one that
was put there (`Restored.around`).

No pushed word ever reaches around the end of the address space: the stack pointer is
moved modulo `2 ^ 32`, but memory refuses the word if that made a difference
(`Pushed.of_pushWord`).

What is executed is said of calls of `step`, however they are spread over the run:
calls that only pause or fail come between the instructions without doing harm
(`split_instructions`, `Restored.of_idle`).

## Main results

* `Restored.of_nested`: what a nested run leaves as it was.
* `Nested.exists_first`: in nested instructions every last has its first.
* `stack_discipline`: both, with the words that are taken off.
-/

namespace SandboxCpu

/-! ## Nesting -/

/-- Two instructions of which the second takes off the stack what the first has put
there. -/
inductive Paired : Instruction → Instruction → Prop
  | saved (args args' : RegisterArgs) : Paired (.register .push args) (.register .pop args')
  | called (args : JumpArgs) : Paired (.jump .call args) (.bare .ret)

/-- Instructions that are made of pairs, one inside the other or one behind the other, to
some depth. -/
inductive Nested : Nat → List Instruction → Prop
  | nothing : Nested 0 []
  | pair {first last : Instruction} {inner rest : List Instruction} {d e : Nat}
      (hpair : Paired first last) (hinner : Nested d inner) (hrest : Nested e rest) :
      Nested (max (d + 1) e) (first :: (inner ++ last :: rest))

/-- No instruction is both a first and a last. -/
theorem Paired.not_last {first last other : Instruction} (h : Paired first last) :
    ¬ Paired other first := by
  cases h <;> nofun

/-- Every last has its first, with nested instructions between the two. -/
theorem Nested.exists_first {depth : Nat} {is : List Instruction} (h : Nested depth is)
    {last : Instruction} (hlast : ∃ first, Paired first last) :
    ∀ {before after}, is = before ++ last :: after →
      ∃ outer first inner d, before = outer ++ first :: inner ∧ Paired first last ∧
        Nested d inner := by
  induction h with
  | nothing =>
      intro before after heq
      cases before <;> cases heq
  | @pair first last' inner rest d e hpair hinner _ ihinner ihrest =>
      intro before after heq
      cases before with
      | nil =>
          obtain ⟨rfl, -⟩ := List.cons.inj heq
          obtain ⟨other, hother⟩ := hlast
          exact absurd hother hpair.not_last
      | cons i before =>
          obtain ⟨rfl, htail⟩ := List.cons.inj heq
          -- It is inside the pair, the last of the pair itself, or behind it.
          obtain ⟨between, rfl, hbetween⟩ | ⟨between, rfl, hbetween⟩ :=
            List.append_eq_append_iff.mp htail
          · cases between with
            | nil =>
                cases hbetween
                exact ⟨[], first, inner, d, by rw [List.append_nil, List.nil_append], hpair, hinner⟩
            | cons j between =>
                obtain ⟨rfl, hrest⟩ := List.cons.inj hbetween
                obtain ⟨outer, other, inner', d', rfl, hother, hinner'⟩ := ihrest hrest
                exact ⟨first :: (inner ++ last' :: outer), other, inner', d',
                  by simp only [List.cons_append, List.append_assoc], hother, hinner'⟩
          · cases between with
            | nil =>
                cases hbetween
                exact ⟨[], first, before, d, rfl, hpair, by rwa [List.append_nil] at hinner⟩
            | cons j between =>
                obtain ⟨rfl, -⟩ := List.cons.inj hbetween
                obtain ⟨outer, other, inner', d', rfl, hother, hinner'⟩ := ihinner rfl
                exact ⟨first :: outer, other, inner', d', rfl, hother, hinner'⟩

namespace Machine

variable {κ : Type} {m n p : Machine κ} {value : UInt32}

/-! ## One word -/

/-- The second machine is the first with a word more on its stack, as far as the stack is
concerned. -/
structure Pushed (value : UInt32) (m n : Machine κ) : Prop where
  /-- There is room below the stack pointer. -/
  room : 4 ≤ m.cpu.sp.toNat
  /-- The stack pointer does not point outside the address space. -/
  fits : m.cpu.sp.toNat ≤ 65536
  sp : n.cpu.sp = m.cpu.sp - 4
  fp : n.cpu.fp = m.cpu.fp
  flags : n.cpu.flags = m.cpu.flags
  memory : n.memory = m.memory.setBytes (m.cpu.sp.toNat - 4) (LittleEndian.bytes value)

/-- The second machine is the first with a word less on its stack, as far as the stack is
concerned. -/
structure Popped (value : UInt32) (m n : Machine κ) : Prop where
  value_eq : value = m.memory.wordAt m.cpu.sp.toNat
  sp : n.cpu.sp = m.cpu.sp + 4
  fp : n.cpu.fp = m.cpu.fp
  flags : n.cpu.flags = m.cpu.flags
  memory : n.memory = m.memory

/-- Where memory takes a word, the stack pointer has not gone around its end. -/
theorem Pushed.of_pushWord (h : m.pushWord value = .ok n) : Pushed value m n := by
  unfold pushWord at h
  cases hwrite : m.memory.writeWord (m.cpu.sp - 4) value .writing with
  | error e => simp only [hwrite] at h; cases h
  | ok memory =>
      simp only [hwrite] at h
      cases h
      obtain ⟨hallows, rfl⟩ := Memory.write_eq_ok_iff.mp hwrite
      have hfits := (Memory.allows_iff.mp hallows).1
      have hlt := m.cpu.sp.toNat_lt
      rw [LittleEndian.length_bytes, UInt32.toNat_sub] at hfits
      have hfour : (4 : UInt32).toNat = 4 := rfl
      have hroom : 4 ≤ m.cpu.sp.toNat := by omega
      have hsp : (m.cpu.sp - 4).toNat = m.cpu.sp.toNat - 4 := by
        rw [UInt32.toNat_sub]
        omega
      refine ⟨hroom, by omega, rfl, rfl, rfl, ?_⟩
      rw [← hsp]

theorem Pushed.toNat_sp (h : Pushed value m n) : n.cpu.sp.toNat = m.cpu.sp.toNat - 4 := by
  have hlt := m.cpu.sp.toNat_lt
  have hroom := h.room
  have hfour : (4 : UInt32).toNat = 4 := rfl
  rw [h.sp, UInt32.toNat_sub]
  omega

theorem Pushed.length_fits (h : Pushed value m n) :
    m.cpu.sp.toNat - 4 + (LittleEndian.bytes value).length ≤ 65536 := by
  have hfits := h.fits
  rw [LittleEndian.length_bytes]
  omega

/-- Bytes beside the pushed word stay. -/
theorem Pushed.byteAt (h : Pushed value m n) {a : Nat}
    (ha : a < m.cpu.sp.toNat - 4 ∨ m.cpu.sp.toNat ≤ a) : n.memory.byteAt a = m.memory.byteAt a := by
  have hroom := h.room
  rw [h.memory, Memory.byteAt_setBytes_outside h.length_fits]
  rw [LittleEndian.length_bytes]
  omega

/-- The word is found where the stack pointer points. -/
theorem Pushed.wordAt (h : Pushed value m n) : n.memory.wordAt n.cpu.sp.toNat = value := by
  have hbyte (i : Nat) (hi : i < 4) : n.memory.byteAt (m.cpu.sp.toNat - 4 + i) =
      (LittleEndian.bytes value).getD i 0 := by
    rw [h.memory, Memory.byteAt_setBytes _ _ _ _ h.length_fits, if_pos (Nat.le_add_right _ _),
      Nat.add_sub_cancel_left, List.getD_eq_getElem?_getD,
      List.getElem?_eq_getElem (by rwa [LittleEndian.length_bytes])]
    rfl
  rw [h.toNat_sp, Memory.wordAt, ← Nat.add_zero (m.cpu.sp.toNat - 4), hbyte 0 (by decide),
    Nat.add_zero, hbyte 1 (by decide), hbyte 2 (by decide), hbyte 3 (by decide)]
  exact LittleEndian.word_bytes value

/-! ## What is between -/

/-- The second machine has the stack of the first, and what lies above it.  Below the
stack pointer there may be other bytes, as far down as so many words take. -/
structure Restored (depth : Nat) (m n : Machine κ) : Prop where
  sp : n.cpu.sp = m.cpu.sp
  fp : n.cpu.fp = m.cpu.fp
  flags : n.cpu.flags = m.cpu.flags
  /-- There is room for the words. -/
  room : 4 * depth ≤ m.cpu.sp.toNat
  byteAt : ∀ a, a < m.cpu.sp.toNat - 4 * depth ∨ m.cpu.sp.toNat ≤ a →
    n.memory.byteAt a = m.memory.byteAt a

namespace Restored

variable {d e : Nat}

theorem of_same (hcpu : n.cpu = m.cpu) (hmemory : n.memory = m.memory) : Restored 0 m n where
  sp := by rw [hcpu]
  fp := by rw [hcpu]
  flags := by rw [hcpu]
  room := by omega
  byteAt := fun a _ => by rw [hmemory]

theorem trans (h : Restored d m n) (h' : Restored e n p) : Restored (max d e) m p where
  sp := h'.sp.trans h.sp
  fp := h'.fp.trans h.fp
  flags := h'.flags.trans h.flags
  room := by
    have hroom := h.room
    have hroom' := h'.room
    rw [h.sp] at hroom'
    omega
  byteAt := by
    intro a ha
    have hbyte' := h'.byteAt a
    rw [h.sp] at hbyte'
    rw [hbyte' (by omega), h.byteAt a (by omega)]

/-- A word on the stack outlasts what comes after it, and is taken off again. -/
theorem around {m₁ m₂ n : Machine κ} {taken : UInt32} (hpush : Pushed value m m₁)
    (h : Restored d m₁ m₂) (hpop : Popped taken m₂ n) :
    taken = value ∧ Restored (d + 1) m n := by
  have hroom := hpush.room
  have hinner := h.room
  have hsp := hpush.toNat_sp
  have hbyte := h.byteAt
  rw [hsp] at hinner hbyte
  constructor
  · rw [hpop.value_eq, h.sp, ← hpush.wordAt, hsp]
    simp only [Memory.wordAt]
    rw [hbyte _ (by omega), hbyte _ (by omega), hbyte _ (by omega), hbyte _ (by omega)]
  · refine ⟨?_, ?_, ?_, by omega, fun a ha => ?_⟩
    · rw [hpop.sp, h.sp, hpush.sp, UInt32.sub_add_cancel]
    · rw [hpop.fp, h.fp, hpush.fp]
    · rw [hpop.flags, h.flags, hpush.flags]
    · rw [hpop.memory, hbyte a (by omega), hpush.byteAt (by omega)]

end Restored

variable [Console κ]

/-! ## One instruction -/

theorem Pushed.of_step {flow : Flow} (h : Pushed value m.released n)
    (hcpu : m.step.2.cpu = { n.cpu with pc := flow.nextPc m.cpu.pc })
    (hmemory : m.step.2.memory = n.memory) : Pushed value m m.step.2 where
  room := h.room
  fits := h.fits
  sp := by rw [hcpu]; exact h.sp
  fp := by rw [hcpu]; exact h.fp
  flags := by rw [hcpu]; exact h.flags
  memory := hmemory.trans h.memory

/-- A `push` puts a register on the stack. -/
theorem pushed_of_push {args : RegisterArgs} (h : m.instruction = some (.register .push args)) :
    Pushed (m.cpu.reg args.rs1) m m.step.2 := by
  obtain ⟨flow, n, hexecute, hcpu, hmemory⟩ := step_of_instruction h
  simp only [execute, executeRegister] at hexecute
  cases hpush : m.released.pushWord (m.released.cpu.reg args.rs1) with
  | error e =>
      rw [hpush] at hexecute
      cases hexecute
  | ok n' =>
      rw [hpush] at hexecute
      cases hexecute
      exact (Pushed.of_pushWord hpush).of_step hcpu hmemory

/-- A `call` puts the address after it on the stack. -/
theorem pushed_of_call {args : JumpArgs} (h : m.instruction = some (.jump .call args)) :
    Pushed (m.cpu.pc + 4) m m.step.2 := by
  obtain ⟨flow, n, hexecute, hcpu, hmemory⟩ := step_of_instruction h
  simp only [execute, executeJump] at hexecute
  cases hpush : m.released.pushWord (m.cpu.pc + 4) with
  | error e =>
      rw [hpush] at hexecute
      cases hexecute
  | ok n' =>
      rw [hpush] at hexecute
      cases hexecute
      exact (Pushed.of_pushWord hpush).of_step hcpu hmemory

theorem Popped.of_step {flow : Flow} (h : Popped value m.released n)
    (hcpu : m.step.2.cpu = { n.cpu with pc := flow.nextPc m.cpu.pc })
    (hmemory : m.step.2.memory = n.memory) : Popped value m m.step.2 where
  value_eq := h.value_eq
  sp := by rw [hcpu]; exact h.sp
  fp := by rw [hcpu]; exact h.fp
  flags := by rw [hcpu]; exact h.flags
  memory := hmemory.trans h.memory

omit [Console κ] in
theorem eq_wordAt_of_topWord (h : m.topWord = .ok value) :
    value = m.memory.wordAt m.cpu.sp.toNat :=
  (Memory.readWord_eq_ok_iff.mp h).2

/-- A `pop` takes a word off the stack and puts it into a register. -/
theorem popped_of_pop {args : RegisterArgs} (h : m.instruction = some (.register .pop args)) :
    Popped (m.step.2.cpu.reg args.rd) m m.step.2 := by
  obtain ⟨flow, n, hexecute, hcpu, hmemory⟩ := step_of_instruction h
  simp only [execute, executeRegister] at hexecute
  cases htop : m.released.topWord with
  | error e =>
      rw [htop] at hexecute
      cases hexecute
  | ok taken =>
      rw [htop] at hexecute
      cases hexecute
      have hreg : m.step.2.cpu.reg args.rd = taken := by
        rw [hcpu]
        exact (m.cpu.reg_setReg args.rd args.rd taken).trans (if_pos rfl)
      rw [hreg]
      refine Popped.of_step ?_ hcpu hmemory
      exact ⟨eq_wordAt_of_topWord htop, rfl, rfl, rfl, rfl⟩

/-- A `ret` takes a word off the stack and goes on there. -/
theorem popped_of_ret (h : m.instruction = some (.bare .ret)) :
    Popped m.step.2.cpu.pc m m.step.2 := by
  obtain ⟨flow, n, hexecute, hcpu, hmemory⟩ := step_of_instruction h
  simp only [execute, executeBare] at hexecute
  cases htop : m.released.topWord with
  | error e =>
      rw [htop] at hexecute
      cases hexecute
  | ok taken =>
      rw [htop] at hexecute
      cases hexecute
      have hpc : m.step.2.cpu.pc = taken := by rw [hcpu]; rfl
      rw [hpc]
      refine Popped.of_step ?_ hcpu hmemory
      exact ⟨eq_wordAt_of_topWord htop, rfl, rfl, rfl, rfl⟩

theorem exists_pushed {first last : Instruction} (h : Paired first last)
    (hfirst : m.instruction = some first) : ∃ value, Pushed value m m.step.2 := by
  cases h with
  | saved args args' => exact ⟨_, pushed_of_push hfirst⟩
  | called args => exact ⟨_, pushed_of_call hfirst⟩

theorem exists_popped {first last : Instruction} (h : Paired first last)
    (hlast : m.instruction = some last) : ∃ value, Popped value m m.step.2 := by
  cases h with
  | saved args args' => exact ⟨_, popped_of_pop hlast⟩
  | called args => exact ⟨_, popped_of_ret hlast⟩

/-! ## Many instructions -/

/-- The instructions that the first `c` calls of `step` execute. -/
def instructions : Nat → Machine κ → List Instruction
  | 0, _ => []
  | c + 1, m => m.instruction.toList ++ instructions c m.step.2

theorem instructions_add (i j : Nat) : ∀ m : Machine κ,
    instructions (i + j) m = instructions i m ++ instructions j (m.stepped i) := by
  induction i with
  | zero =>
      intro m
      rw [Nat.zero_add]
      rfl
  | succ i ih =>
      intro m
      rw [Nat.add_right_comm, instructions, ih, instructions, List.append_assoc]
      rfl

/-- Where the instructions of some calls can be cut in two, so can the calls. -/
theorem split_instructions {xs ys : List Instruction} (c : Nat) : ∀ {m : Machine κ},
    instructions c m = xs ++ ys →
      ∃ i j, c = i + j ∧ instructions i m = xs ∧ instructions j (m.stepped i) = ys := by
  induction c generalizing xs with
  | zero =>
      intro m h
      obtain ⟨rfl, rfl⟩ := List.append_eq_nil_iff.mp h.symm
      exact ⟨0, 0, rfl, rfl, rfl⟩
  | succ c ih =>
      intro m h
      cases xs with
      | nil => exact ⟨0, c + 1, (Nat.zero_add _).symm, rfl, h⟩
      | cons x xs =>
          cases hfirst : m.instruction with
          | none =>
              rw [instructions, hfirst] at h
              obtain ⟨i, j, rfl, hi, hj⟩ := ih h
              refine ⟨i + 1, j, Nat.add_right_comm i j 1, ?_, hj⟩
              rw [instructions, hfirst]
              exact hi
          | some a =>
              rw [instructions, hfirst] at h
              obtain ⟨rfl, htail⟩ := List.cons.inj h
              obtain ⟨i, j, rfl, hi, hj⟩ := ih htail
              refine ⟨i + 1, j, Nat.add_right_comm i j 1, ?_, hj⟩
              rw [instructions, hfirst, hi]
              rfl

/-- The call that executes the first of the instructions comes after calls that execute
none. -/
theorem split_first {x : Instruction} {xs : List Instruction} (c : Nat) : ∀ {m : Machine κ},
    instructions c m = x :: xs →
      ∃ i j, c = i + 1 + j ∧ instructions i m = [] ∧ (m.stepped i).instruction = some x ∧
        instructions j (m.stepped (i + 1)) = xs := by
  induction c with
  | zero => exact fun h => nomatch h
  | succ c ih =>
      intro m h
      cases hfirst : m.instruction with
      | none =>
          rw [instructions, hfirst] at h
          obtain ⟨i, j, rfl, hi, hx, hj⟩ := ih h
          refine ⟨i + 1, j, Nat.add_right_comm (i + 1) j 1, ?_, hx, hj⟩
          rw [instructions, hfirst]
          exact hi
      | some a =>
          rw [instructions, hfirst] at h
          obtain ⟨rfl, htail⟩ := List.cons.inj h
          exact ⟨0, c, Nat.add_comm c 1, rfl, hfirst, htail⟩

/-- Calls that execute nothing leave the stack alone. -/
theorem Restored.of_idle (c : Nat) : ∀ {m : Machine κ}, instructions c m = [] →
    Restored 0 m (m.stepped c) := by
  induction c with
  | zero => exact fun _ => .of_same rfl rfl
  | succ c ih =>
      intro m h
      obtain ⟨hfirst, hrest⟩ := List.append_eq_nil_iff.mp h
      obtain ⟨hcpu, hmemory⟩ := step_of_no_instruction (Option.toList_eq_nil_iff.mp hfirst)
      exact (Restored.of_same hcpu hmemory).trans (ih hrest)

/-- **Nested instructions restore the stack.** -/
theorem Restored.of_nested {depth : Nat} {is : List Instruction} (h : Nested depth is) :
    ∀ (c : Nat) (m : Machine κ), instructions c m = is → Restored depth m (m.stepped c) := by
  induction h with
  | nothing => exact fun c m his => .of_idle c his
  | @pair first last inner rest d e hpair _ _ ihinner ihrest =>
      intro c m his
      obtain ⟨i, c, rfl, hidle, hfirst, htail⟩ := split_first c his
      obtain ⟨j, c, rfl, hinner, htail⟩ := split_instructions c htail
      obtain ⟨k, l, rfl, hidle', hlast, hrest⟩ := split_first c htail
      obtain ⟨value, hpush⟩ := exists_pushed hpair hfirst
      obtain ⟨taken, hpop⟩ := exists_popped hpair hlast
      rw [← stepped_succ] at hpush hpop
      have hbetween := (ihinner j _ hinner).trans (.of_idle k hidle')
      have haround := (Restored.around hpush hbetween hpop).2
      have hall := ((Restored.of_idle i hidle).trans haround).trans (ihrest l _ hrest)
      rw [Nat.max_zero, Nat.zero_max] at hall
      rw [stepped_add (i + 1), stepped_add j, stepped_add (k + 1)]
      exact hall

/-- Call `j` of `step` takes off the stack what call `i` has put there: what they execute
is a pair, and what is executed between the two is nested. -/
structure Matching (m : Machine κ) (i j : Nat) (first last : Instruction) : Prop where
  paired : Paired first last
  first : (m.stepped i).instruction = some first
  last : (m.stepped j).instruction = some last
  between : ∃ k d, j = i + 1 + k ∧ Nested d (instructions k (m.stepped (i + 1)))

/-- In a nested run, whatever takes a word off the stack has its match. -/
theorem exists_matching {depth c j : Nat} (h : Nested depth (m.instructions c)) (hj : j < c)
    {last : Instruction} (hlast : (m.stepped j).instruction = some last)
    (hpaired : ∃ first, Paired first last) : ∃ i first, Matching m i j first last := by
  obtain ⟨rest, rfl⟩ : ∃ rest, c = j + (rest + 1) := ⟨c - j - 1, by omega⟩
  have hcut : instructions (j + (rest + 1)) m =
      instructions j m ++ last :: instructions rest (m.stepped j).step.2 := by
    rw [instructions_add, instructions, hlast]
    rfl
  obtain ⟨outer, first, inner, d, hbefore, hpair, hinner⟩ := h.exists_first hpaired hcut
  obtain ⟨i, c, rfl, -, hfirst⟩ := split_instructions j hbefore
  obtain ⟨i', k, rfl, -, hfirst, hbetween⟩ := split_first c hfirst
  rw [← stepped_add] at hfirst hbetween
  refine ⟨i + i', first, hpair, hfirst, hlast, k, d, by omega, ?_⟩
  rw [Nat.add_assoc, hbetween]
  exact hinner

/-- What a match takes off the stack is what was put there. -/
theorem Matching.taken_eq {i j : Nat} {first last : Instruction} {taken : UInt32}
    (h : Matching m i j first last)
    (hpush : Pushed value (m.stepped i) (m.stepped i).step.2)
    (hpop : Popped taken (m.stepped j) (m.stepped j).step.2) : taken = value := by
  obtain ⟨k, d, rfl, hnested⟩ := h.between
  rw [← stepped_succ] at hpush
  rw [stepped_add (i + 1)] at hpop
  exact (Restored.around hpush (.of_nested hnested k _ rfl) hpop).1

/-! ## Main result -/

/-- **The stack keeps its discipline.**  Let the instructions that some calls of `step`
execute be nested to a depth.  Then the stack pointer is at the end where it was at the
start, flags and frame pointer are the same, and no byte has changed but those of as many
words below the stack pointer as the depth tells.

Every `pop` among these instructions has a matching `push`, and puts the word into its
register that was in the register of the `push` then.  Every `ret` has a matching `call`,
and goes on at the address after it. -/
theorem stack_discipline {depth c : Nat} (h : Nested depth (m.instructions c)) :
    let n := m.stepped c
    (n.cpu.sp = m.cpu.sp ∧ n.cpu.flags = m.cpu.flags ∧ n.cpu.fp = m.cpu.fp ∧
      4 * depth ≤ m.cpu.sp.toNat ∧
      ∀ a, n.memory.byteAt a ≠ m.memory.byteAt a →
        m.cpu.sp.toNat - 4 * depth ≤ a ∧ a < m.cpu.sp.toNat) ∧
    (∀ j < c, ∀ args, (m.stepped j).instruction = some (.register .pop args) →
      (∃ i args', Matching m i j (.register .push args') (.register .pop args)) ∧
        ∀ i args', Matching m i j (.register .push args') (.register .pop args) →
          (m.stepped (j + 1)).cpu.reg args.rd = (m.stepped i).cpu.reg args'.rs1) ∧
    ∀ j < c, (m.stepped j).instruction = some (.bare .ret) →
      (∃ i args, Matching m i j (.jump .call args) (.bare .ret)) ∧
        ∀ i args, Matching m i j (.jump .call args) (.bare .ret) →
          (m.stepped (j + 1)).cpu.pc = (m.stepped i).cpu.pc + 4 := by
  have hrestored : Restored depth m (m.stepped c) := .of_nested h c m rfl
  refine ⟨⟨hrestored.sp, hrestored.flags, hrestored.fp, hrestored.room, fun a ha => ?_⟩,
    fun j hj args hpop => ⟨?_, fun i args' hmatch => ?_⟩,
    fun j hj hret => ⟨?_, fun i args hmatch => ?_⟩⟩
  · by_contra hout
    exact ha (hrestored.byteAt a (by omega))
  · obtain ⟨i, first, hmatch⟩ := exists_matching h hj hpop ⟨_, .saved args args⟩
    cases hmatch.paired with
    | saved args' => exact ⟨i, args', hmatch⟩
  · rw [stepped_succ]
    exact hmatch.taken_eq (pushed_of_push hmatch.first) (popped_of_pop hpop)
  · obtain ⟨i, first, hmatch⟩ := exists_matching h hj hret ⟨_, .called ⟨0⟩⟩
    cases hmatch.paired with
    | called args => exact ⟨i, args, hmatch⟩
  · rw [stepped_succ]
    exact hmatch.taken_eq (pushed_of_call hmatch.first) (popped_of_ret hret)

/-- A machine about to save a register, call a function that saves another, and take the
first back.  Its stack pointer is unaligned, and the first word crosses into another
page. -/
def saving : Machine QueueConsole :=
  (Machine.new {} {}).after
    [.load 0 (LittleEndian.image [0x36030000, 0x55000020, 0x37400000]),
      .load 0x20 (LittleEndian.image [0x36010000, 0x37200000, 0x56000000]),
      .setSp 0xFF02, .setReg 1 0x11111111, .setReg 3 0x33333333]

/-- The caller gets its register back in another one, and the stack pointer is where it
was. -/
theorem stack_discipline_saving :
    Nested 3 (saving.instructions 6) ∧
    (saving.stepped 6).cpu.sp = 0xFF02 ∧
    (saving.stepped 6).cpu.reg 4 = 0x33333333 ∧
    (saving.stepped 5).cpu.pc = 8 := by
  -- what the program executes, and the words that it saves, in one evaluation
  have hrun :
      saving.instructions 6 = .register .push ⟨0, 3, 0⟩ ::
        ((saving.stepped 1).instructions 4 ++ [.register .pop ⟨4, 0, 0⟩]) ∧
      (saving.stepped 1).instructions 4 = .jump .call ⟨0x20⟩ ::
        ((saving.stepped 2).instructions 2 ++ [.bare .ret]) ∧
      (saving.stepped 2).instructions 2 =
        [.register .push ⟨0, 1, 0⟩, .register .pop ⟨2, 0, 0⟩] ∧
      (saving.stepped 0).instruction = some (.register .push ⟨0, 3, 0⟩) ∧
      (saving.stepped 1).instruction = some (.jump .call ⟨0x20⟩) ∧
      (saving.stepped 4).instruction = some (.bare .ret) ∧
      (saving.stepped 5).instruction = some (.register .pop ⟨4, 0, 0⟩) ∧
      saving.cpu.sp = 0xFF02 ∧ (saving.stepped 0).cpu.reg 3 = 0x33333333 ∧
      (saving.stepped 1).cpu.pc + 4 = 8 := by
    decide +kernel
  obtain ⟨houter, hbetween, hinner, hpush, hcall, hret, hpop, hsp, hreg, hpc⟩ := hrun
  have hcallee : Nested 1 ((saving.stepped 2).instructions 2) := by
    rw [hinner]
    exact .pair (.saved _ _) .nothing .nothing
  have hcalling : Nested 2 ((saving.stepped 1).instructions 4) := by
    rw [hbetween]
    exact .pair (.called _) hcallee .nothing
  have hnested : Nested 3 (saving.instructions 6) := by
    rw [houter]
    exact .pair (.saved _ _) hcalling .nothing
  have hsaved : Matching saving 0 5 (.register .push ⟨0, 3, 0⟩) (.register .pop ⟨4, 0, 0⟩) :=
    ⟨.saved _ _, hpush, hpop, 4, 2, rfl, hcalling⟩
  have hcalled : Matching saving 1 4 (.jump .call ⟨0x20⟩) (.bare .ret) :=
    ⟨.called _, hcall, hret, 2, 1, rfl, hcallee⟩
  obtain ⟨⟨hrestored, -⟩, hpops, hrets⟩ := stack_discipline hnested
  refine ⟨hnested, hrestored.trans hsp, ?_, ?_⟩
  · rw [(hpops 5 (by decide) _ hpop).2 0 _ hsaved]
    exact hreg
  · rw [(hrets 4 (by decide) hret).2 1 _ hcalled]
    exact hpc

end Machine

end SandboxCpu
