import Mathlib.Algebra.Group.Nat.Defs
import SandboxCpu.Proofs.Debugger.History

/-!
# The counters of a debugger

A debugger counts instructions and cycles.  What an operation adds to them is known
before it is done (`Operation.instructions`, `Operation.cycles`), and it is nothing for
most; a reset alone takes something away (`counted_perform`).

The counters are words of 64 bits.  A sum that fits into a word is not less than what
was there before, and one that does not is less, so that an operation makes a counter
decrease exactly when its sum does not fit (`count_le_perform_iff`).  Each counter has its
own sums: cycles are added by the host in any number, and theirs can leave the words at once
while the instructions go on growing.  Where the sums of the cycles fit, there are never more
instructions than cycles, since each instruction is counted together with its cycle.

## Main results

* `counted_perform`: what each operation counts.
* `counters_grow_iff_fit`: a counter never decreases exactly if its sums fit, and as long as
  those of the cycles do, instructions do not come to exceed cycles.
-/

namespace SandboxCpu.Debugger

/-! ## Counting -/

/-- The second debugger is the first after it counted instructions and cycles. -/
structure Counted (instructions cycles : Nat) (d d' : Debugger) : Prop where
  instructions : d'.instructions = d.instructions + UInt64.ofNat instructions
  cycles : d'.cycles = d.cycles + UInt64.ofNat cycles

/-- Noting an event counts nothing. -/
theorem counters_record (d : Debugger) (e : Event) :
    (d.record e).instructions = d.instructions ∧ (d.record e).cycles = d.cycles := by
  obtain ⟨events, hrest⟩ := d.rest_record e
  rw [hrest]
  exact ⟨rfl, rfl⟩

namespace Counted

variable {i i' c c' : Nat} {d d' d'' : Debugger}

theorem nothing (h : d'.instructions = d.instructions ∧ d'.cycles = d.cycles) :
    Counted 0 0 d d' :=
  ⟨h.1.trans (UInt64.add_zero _).symm, h.2.trans (UInt64.add_zero _).symm⟩

theorem trans (h : Counted i c d d') (h' : Counted i' c' d' d'') :
    Counted (i + i') (c + c') d d'' where
  instructions := by rw [h'.instructions, h.instructions, UInt64.add_assoc, UInt64.ofNat_add]
  cycles := by rw [h'.cycles, h.cycles, UInt64.add_assoc, UInt64.ofNat_add]

/-- What counts nothing can come first. -/
theorem after_nothing (h : Counted 0 0 d d') (h' : Counted i c d' d'') : Counted i c d d'' := by
  have hboth := h.trans h'
  rwa [Nat.zero_add, Nat.zero_add] at hboth

theorem record (d : Debugger) (e : Event) : Counted 0 0 d (d.record e) :=
  nothing (d.counters_record e)

/-- An instruction is counted with its cycle. -/
theorem countInstruction (d : Debugger) : Counted 1 1 d d.countInstruction := ⟨rfl, rfl⟩

theorem addCycles (d : Debugger) (cycles : UInt64) :
    Counted 0 cycles.toNat d (d.addCycles cycles) := by
  refine ⟨(UInt64.add_zero _).symm, ?_⟩
  rw [UInt64.ofNat_toNat]
  rfl

end Counted

namespace Operation

/-- How many instructions an operation counts. -/
def instructions : Operation → Nat
  | .countInstruction => 1
  | _ => 0

/-- How many cycles it counts. -/
def cycles : Operation → Nat
  | .countInstruction => 1
  | .addCycles cycles => cycles.toNat
  | _ => 0

/-- No instruction without a cycle. -/
theorem instructions_le_cycles (op : Operation) : op.instructions ≤ op.cycles := by
  cases op with
  | countInstruction => exact Nat.le_refl 1
  | _ => exact Nat.zero_le _

theorem cycles_lt (op : Operation) : op.cycles < 2 ^ 64 := by
  cases op with
  | addCycles cycles => exact cycles.toNat_lt
  | countInstruction => exact Nat.one_lt_two_pow (by decide)
  | _ => exact Nat.two_pow_pos 64

end Operation

variable {d d' d'' : Debugger} {op : Operation}

/-- **Each operation but a reset counts what is known of it.** -/
theorem counted_perform (hop : op ≠ .reset) :
    d.Counted op.instructions op.cycles (d.perform op).2 := by
  cases op with
  | addBreakpoint addr =>
      obtain ⟨breakpoints, hrest⟩ := d.rest_addBreakpoint addr
      rw [hrest]
      exact .nothing ⟨rfl, rfl⟩
  | removeBreakpoint addr =>
      obtain ⟨breakpoints, resume, hrest⟩ := d.rest_removeBreakpoint addr
      rw [hrest]
      exact .nothing ⟨rfl, rfl⟩
  | pauseBefore pc =>
      obtain ⟨resume, events, hrest⟩ := d.rest_pauseBefore pc
      rw [hrest]
      exact .nothing ⟨rfl, rfl⟩
  | record e => exact .record d e
  | countInstruction => exact .countInstruction d
  | addCycles cycles => exact .addCycles d cycles
  | setEnabled | setSingleStep | clearBreakpoints | takeEvents => exact .nothing ⟨rfl, rfl⟩
  | reset => exact absurd rfl hop

/-! ## Sums that fit -/

/-- One of the two counters. -/
inductive Counter
  | instructions
  | cycles

/-- What a counter shows. -/
def count (d : Debugger) : Counter → UInt64
  | .instructions => d.instructions
  | .cycles => d.cycles

/-- How much an operation adds to a counter. -/
def Operation.amount (op : Operation) : Counter → Nat
  | .instructions => op.instructions
  | .cycles => op.cycles

theorem Operation.amount_lt (op : Operation) (c : Counter) : op.amount c < 2 ^ 64 := by
  cases c with
  | instructions => exact Nat.lt_of_le_of_lt op.instructions_le_cycles op.cycles_lt
  | cycles => exact op.cycles_lt

theorem count_perform (c : Counter) (hop : op ≠ .reset) :
    (d.perform op).2.count c = d.count c + UInt64.ofNat (op.amount c) := by
  cases c with
  | instructions => exact (counted_perform hop).instructions
  | cycles => exact (counted_perform hop).cycles

/-- What an operation adds to a counter can be added without leaving the words. -/
def Fits (c : Counter) (d : Debugger) (op : Operation) : Prop :=
  (d.count c).toNat + op.amount c < 2 ^ 64

instance (c : Counter) (d : Debugger) (op : Operation) : Decidable (Fits c d op) :=
  inferInstanceAs (Decidable (_ < _))

/-- So can what a history adds, one operation after the other. -/
def FitsAll (c : Counter) (d : Debugger) : List Operation → Prop
  | [] => True
  | op :: history => Fits c d op ∧ FitsAll c (d.perform op).2 history

variable {c : Counter}

theorem fitsAll_append {early late : List Operation} :
    FitsAll c d (early ++ late) ↔ FitsAll c d early ∧ FitsAll c (d.after early) late := by
  induction early generalizing d with
  | nil => exact ⟨fun h => ⟨trivial, h⟩, And.right⟩
  | cons op early ih =>
      rw [List.cons_append, FitsAll, FitsAll, ih, and_assoc]
      rfl

/-- A sum in words is not below its first part exactly if it fits. -/
theorem le_add_ofNat_iff {a : UInt64} {n : Nat} (hn : n < 2 ^ 64) :
    a ≤ a + UInt64.ofNat n ↔ a.toNat + n < 2 ^ 64 := by
  have ha := a.toNat_lt
  rw [UInt64.le_iff_toNat_le, UInt64.toNat_add, UInt64.toNat_ofNat', Nat.mod_eq_of_lt hn]
  omega

/-- **An operation makes a counter decrease exactly if its sum does not fit.** -/
theorem count_le_perform_iff (hop : op ≠ .reset) :
    d.count c ≤ (d.perform op).2.count c ↔ Fits c d op := by
  rw [count_perform c hop, le_add_ofNat_iff (op.amount_lt c), Fits]

theorem Fits.toNat_perform (h : Fits c d op) (hop : op ≠ .reset) :
    ((d.perform op).2.count c).toNat = (d.count c).toNat + op.amount c := by
  have hamount := op.amount_lt c
  have hsum : (d.count c).toNat + op.amount c < 2 ^ 64 := h
  rw [count_perform c hop, UInt64.toNat_add, UInt64.toNat_ofNat', Nat.mod_eq_of_lt hamount,
    Nat.mod_eq_of_lt hsum]

/-- No operation whose cycles fit brings instructions above cycles. -/
theorem instructions_le_cycles_perform (h : d.instructions ≤ d.cycles)
    (hfits : Fits .cycles d op) :
    (d.perform op).2.instructions ≤ (d.perform op).2.cycles := by
  by_cases hop : op = .reset
  · subst hop
    exact UInt64.le_refl 0
  · have hle : d.instructions.toNat ≤ d.cycles.toNat := UInt64.le_iff_toNat_le.mp h
    have hamount := op.instructions_le_cycles
    have hsum : d.cycles.toNat + op.cycles < 2 ^ 64 := hfits
    -- there are fewer instructions than cycles to add to, so that their sum fits too
    have hfits' : Fits .instructions d op := by
      show d.instructions.toNat + op.instructions < 2 ^ 64
      omega
    have hi : (d.perform op).2.instructions.toNat = d.instructions.toNat + op.instructions :=
      hfits'.toNat_perform hop
    have hc : (d.perform op).2.cycles.toNat = d.cycles.toNat + op.cycles :=
      hfits.toNat_perform hop
    rw [UInt64.le_iff_toNat_le, hi, hc]
    omega

/-! ## Histories -/

theorem count_le_after {history : List Operation} (hreset : .reset ∉ history)
    (hfits : FitsAll c d history) : d.count c ≤ (d.after history).count c := by
  induction history generalizing d with
  | nil => exact UInt64.le_refl _
  | cons op history ih =>
      have hop : op ≠ .reset := fun h => hreset (h ▸ List.mem_cons_self)
      have hfirst := (count_le_perform_iff hop).mpr hfits.1
      exact UInt64.le_trans hfirst (ih (fun h => hreset (List.mem_cons_of_mem op h)) hfits.2)

/-- If no operation of a history makes a counter decrease, then all sums of it fit. -/
theorem fitsAll_of_count_le {history : List Operation} (hreset : .reset ∉ history)
    (h : ∀ early op late, history = early ++ op :: late →
      (d.after early).count c ≤ (d.after (early ++ [op])).count c) : FitsAll c d history := by
  induction history generalizing d with
  | nil => trivial
  | cons op history ih =>
      have hop : op ≠ .reset := fun heq => hreset (heq ▸ List.mem_cons_self)
      refine ⟨(count_le_perform_iff hop).mp (h [] op history rfl), ?_⟩
      refine ih (fun hmem => hreset (List.mem_cons_of_mem op hmem)) fun early op' late heq => ?_
      exact h (op :: early) op' late (congrArg (op :: ·) heq)

/-- Instructions do not come to exceed cycles in a history whose cycles fit, resets
included. -/
theorem instructions_le_cycles_after {history : List Operation}
    (hfits : FitsAll .cycles d history) (h : d.instructions ≤ d.cycles) :
    (d.after history).instructions ≤ (d.after history).cycles := by
  induction history generalizing d with
  | nil => exact h
  | cons op history ih => exact ih hfits.2 (instructions_le_cycles_perform h hfits.1)

/-- **When counters are monotonic.**  In a history without a reset, each of the two counters
is never less than it was before exactly if none of its own sums leaves the words; and an
operation makes a counter decrease exactly if its sum leaves them.

As long as no sum of cycles leaves the words, instructions never exceed cycles, given that
they did not at first; and they do not in any state that a fresh debugger reaches with such
sums, by resets too. -/
theorem counters_grow_iff_fit (d : Debugger) (history : List Operation)
    (hreset : .reset ∉ history) :
    (∀ c,
      ((∀ early stretch late, history = early ++ stretch ++ late →
        (d.after early).count c ≤ (d.after (early ++ stretch)).count c) ↔
          FitsAll c d history) ∧
      ∀ early op late, history = early ++ op :: late →
        ((d.after (early ++ [op])).count c < (d.after early).count c ↔
          2 ^ 64 ≤ ((d.after early).count c).toNat + op.amount c)) ∧
    (FitsAll .cycles d history → d.instructions ≤ d.cycles →
      ∀ early late, history = early ++ late →
        (d.after early).instructions ≤ (d.after early).cycles) ∧
    ∀ capacity eventCapacity past, FitsAll .cycles (fresh capacity eventCapacity) past →
      ((fresh capacity eventCapacity).after past).instructions ≤
        ((fresh capacity eventCapacity).after past).cycles := by
  refine ⟨fun c => ⟨⟨fun h => ?fits, fun hfits early stretch late heq => ?grows⟩,
    fun early op late heq => ?drops⟩, fun hfits hle early late heq => ?le,
    fun capacity eventCapacity past hfits => ?fresh⟩
  case fits =>
    refine fitsAll_of_count_le hreset fun early op late heq => h early [op] late ?_
    rw [heq, List.append_assoc, List.singleton_append]
  case grows =>
    subst heq
    rw [List.append_assoc, fitsAll_append, fitsAll_append] at hfits
    rw [after_append]
    refine count_le_after (fun hmem => hreset ?_) hfits.2.1
    exact List.mem_append_left _ (List.mem_append_right _ hmem)
  case drops =>
    subst heq
    have hop : op ≠ .reset := fun h => hreset (h ▸ List.mem_append_right _ List.mem_cons_self)
    rw [after_append, ← UInt64.not_le, after_cons, after_nil, count_le_perform_iff hop, Fits,
      Nat.not_lt]
  case le =>
    subst heq
    exact instructions_le_cycles_after (fitsAll_append.mp hfits).1 hle
  case fresh => exact instructions_le_cycles_after hfits (UInt64.le_refl 0)

/-- A debugger that counts two instructions, and some cycles between them. -/
def counting (cycles : UInt64) : List Operation :=
  [.countInstruction, .addCycles cycles, .countInstruction]

/-- With few cycles both counters grow.  With the greatest number of cycles that can be added,
the instructions still do. -/
theorem counters_grow_iff_fit_counting :
    (.reset ∉ counting 7 ∧ FitsAll .cycles (fresh 1 1) (counting 7) ∧
      (∀ early stretch late, counting 7 = early ++ stretch ++ late →
        ((fresh 1 1).after early).cycles ≤ ((fresh 1 1).after (early ++ stretch)).cycles) ∧
      ∀ early late, counting 7 = early ++ late →
        ((fresh 1 1).after early).instructions ≤ ((fresh 1 1).after early).cycles) ∧
    .reset ∉ counting 0xFFFFFFFFFFFFFFFF ∧
      FitsAll .instructions (fresh 1 1) (counting 0xFFFFFFFFFFFFFFFF) ∧
      ∀ early stretch late, counting 0xFFFFFFFFFFFFFFFF = early ++ stretch ++ late →
        ((fresh 1 1).after early).instructions ≤
          ((fresh 1 1).after (early ++ stretch)).instructions := by
  have hreset (cycles : UInt64) : .reset ∉ counting cycles := by simp [counting]
  have hfew : FitsAll .cycles (fresh 1 1) (counting 7) :=
    ⟨by decide, by decide, by decide, trivial⟩
  have hmany : FitsAll .instructions (fresh 1 1) (counting 0xFFFFFFFFFFFFFFFF) :=
    ⟨by decide, by decide, by decide, trivial⟩
  obtain ⟨hgrows, hle, -⟩ := counters_grow_iff_fit (fresh 1 1) (counting 7) (hreset 7)
  have hgrows' := (counters_grow_iff_fit (fresh 1 1) _ (hreset 0xFFFFFFFFFFFFFFFF)).1
  exact ⟨⟨hreset 7, hfew, (hgrows .cycles).1.mpr hfew, hle hfew (UInt64.le_refl 0)⟩,
    hreset _, hmany, (hgrows' .instructions).1.mpr hmany⟩

/-- With one cycle counted, the greatest number of cycles that can be added brings the counter
back to zero: below what it was, and below the one instruction. -/
theorem cycles_wrap_around :
    let d := (fresh 16 64).after [.countInstruction]
    let d' := d.after [.addCycles 0xFFFFFFFFFFFFFFFF]
    d.cycles = 1 ∧ d'.cycles = 0 ∧ d'.cycles < d.cycles ∧ d'.cycles < d'.instructions :=
  ⟨rfl, rfl, by decide, by decide⟩

end SandboxCpu.Debugger
