import Mathlib.Data.Int.ModEq
import SandboxCpu.Proofs.Alu.Exact

/-!
# Two readings of one result

Arithmetic on words is arithmetic on integers in two ways at once, for a word has an
unsigned and a signed reading.  The value of an outcome is right for both of them, since
they differ by a multiple of `2 ^ 32`.  Where they part is the range that a result may
leave: the carry speaks of the one and the overflow of the other (`Outcome.Tells`).

A product is worked out in words of 64 bits, once without a sign and once with it.
Whether these are wide enough is a question that the words themselves do not answer, for
they wrap around without a word.  So multiplication is carried out once more with every
product checked (`checkedMul`), and nothing leaves the words.

## Main results

* `exact_tells`: an outcome of exact arithmetic tells both results.
* `checkedMul_eq`: no product of two words leaves 64 bits.
* `arithmetic_exact`: addition, subtraction, multiplication, negation and the flags.
-/

namespace SandboxCpu

namespace Word

/-- The two readings of a word are congruent. -/
theorem signed_modEq_unsigned (w : UInt32) : signed w ≡ unsigned w [ZMOD 2 ^ 32] := by
  have := w.toNat_lt
  rw [Int.ModEq, signed, unsigned]
  split <;> omega

/-- The sign of a word is its highest bit. -/
theorem signed_neg_iff (w : UInt32) : signed w < 0 ↔ w.toNat.testBit 31 = true := by
  have hbit : w.toBitVec.msb = w.toNat.testBit 31 := BitVec.msb_eq_getLsbD_last _
  rw [← hbit, msb_toBitVec, decide_eq_true_iff]

/-- The product of two unsigned numbers of 64 bits, unless it leaves them. -/
def checkedMul (a b : UInt64) : Option UInt64 :=
  if a.toNat * b.toNat < 2 ^ 64 then some (a * b) else none

/-- The product of two signed numbers of 64 bits, unless it leaves them. -/
def checkedMulSigned (a b : Int64) : Option Int64 :=
  if -2 ^ 63 ≤ a.toInt * b.toInt ∧ a.toInt * b.toInt < 2 ^ 63 then some (a * b) else none

end Word

namespace Alu

open Word

/-! ## Results in two readings -/

/-- An outcome tells what the unsigned readings and the signed readings of two words come
to. -/
structure Outcome.Tells (r : Outcome) (unsignedResult signedResult : Int) : Prop where
  value : (r.value.toNat : Int) = unsignedResult % 2 ^ 32
  /-- The value is the same for both. -/
  value_signed : (r.value.toNat : Int) = signedResult % 2 ^ 32
  /-- The one is not the unsigned reading of any word. -/
  carry : r.carry = true ↔ unsignedResult < 0 ∨ 2 ^ 32 - 1 < unsignedResult
  /-- The other is not the signed reading of any word. -/
  overflow : r.overflow = true ↔ signedResult < -2 ^ 31 ∨ 2 ^ 31 - 1 < signedResult

/-- Exact arithmetic tells both results, if it goes along with congruence. -/
theorem exact_tells {f : Int → Int → Int} (a b : UInt32)
    (hf : f (signed a) (signed b) ≡ f (unsigned a) (unsigned b) [ZMOD 2 ^ 32]) :
    (exact f a b).Tells (f (unsigned a) (unsigned b)) (f (signed a) (signed b)) := by
  have hvalue : ((exact f a b).value.toNat : Int) = f (unsigned a) (unsigned b) % 2 ^ 32 := by
    rw [exact, toNat_ofInt]
    omega
  refine ⟨hvalue, hvalue.trans hf.symm, ?_, ?_⟩
  · rw [exact, decide_eq_true_iff]
    omega
  · rw [exact, decide_eq_true_iff]
    omega

theorem add_tells (a b : UInt32) :
    (add a b).Tells (unsigned a + unsigned b) (signed a + signed b) := by
  rw [add_eq_exact]
  exact exact_tells a b ((signed_modEq_unsigned a).add (signed_modEq_unsigned b))

theorem sub_tells (a b : UInt32) :
    (sub a b).Tells (unsigned a - unsigned b) (signed a - signed b) := by
  rw [sub_eq_exact]
  exact exact_tells a b ((signed_modEq_unsigned a).sub (signed_modEq_unsigned b))

theorem mul_tells (a b : UInt32) :
    (mul a b).Tells (unsigned a * unsigned b) (signed a * signed b) := by
  rw [mul_eq_exact]
  exact exact_tells a b ((signed_modEq_unsigned a).mul (signed_modEq_unsigned b))

/-- A difference of unsigned readings can only leave the range below. -/
theorem carry_sub_iff (a b : UInt32) : (sub a b).carry = true ↔ a.toNat < b.toNat := by
  rw [(sub_tells a b).carry, unsigned, unsigned]
  have := a.toNat_lt
  omega

theorem carry_neg_iff (a : UInt32) : (neg a).carry = true ↔ a ≠ 0 := by
  have hzero : a = 0 ↔ a.toNat = 0 := UInt32.toNat_inj.symm
  rw [neg, carry_sub_iff, UInt32.toNat_zero, ne_eq, hzero]
  omega

/-- Only the least number has no negation. -/
theorem overflow_neg_iff (a : UInt32) : (neg a).overflow = true ↔ signed a = -2 ^ 31 := by
  have hzero : signed 0 = 0 := rfl
  have hbounds := signed_bounds a
  rw [neg, (sub_tells 0 a).overflow, hzero]
  omega

/-! ## Products of 64 bits -/

/-- Multiplication with every product of 64 bits checked. -/
def checkedMul (a b : UInt32) : Option Outcome := do
  let wide ← Word.checkedMul a.toUInt64 b.toUInt64
  let signed ← Word.checkedMulSigned a.toInt32.toInt64 b.toInt32.toInt64
  return {
    value := wide.toUInt32
    carry := 0xFFFFFFFF < wide
    overflow := signed != signed.toInt32.toInt64 }

/-- No product of two words leaves 64 bits, with a sign or without it. -/
theorem checkedMul_eq (a b : UInt32) : checkedMul a b = some (mul a b) := by
  have hwide : a.toUInt64.toNat * b.toUInt64.toNat < 2 ^ 64 := by
    rw [UInt32.toNat_toUInt64, UInt32.toNat_toUInt64]
    exact toNat_mul_toNat_lt a b
  have hsigned : -2 ^ 63 ≤ a.toInt32.toInt64.toInt * b.toInt32.toInt64.toInt ∧
      a.toInt32.toInt64.toInt * b.toInt32.toInt64.toInt < 2 ^ 63 := by
    rw [Int32.toInt_toInt64, Int32.toInt_toInt64, toInt_toInt32, toInt_toInt32]
    have hbounds := signedProduct_bounds a b
    omega
  rw [checkedMul, Word.checkedMul, if_pos hwide, Word.checkedMulSigned, if_pos hsigned]
  rfl

/-! ## Main result -/

/-- **Arithmetic is exact.**  The sum, the difference and the product of two words have
the value of the integer result modulo `2 ^ 32`, and it makes no difference whether the
words are read with a sign or without.  The carry says that the unsigned result is not
between `0` and `2 ^ 32 - 1`, which for a difference is to say that the first word is the
smaller one.  The overflow says that the signed result is not between `-2 ^ 31` and
`2 ^ 31 - 1`.

A negation is a difference from zero.  So it carries for all words but zero, and overflows
for the least signed number alone.

Nothing leaves the words of 64 bits in which a product is worked out.  And whatever
the flags were, an outcome replaces them: zero by whether the value is, negative by its
highest bit, and the other two by what it says itself. -/
theorem arithmetic_exact (a b : UInt32) :
    (add a b).Tells (unsigned a + unsigned b) (signed a + signed b) ∧
    ((sub a b).Tells (unsigned a - unsigned b) (signed a - signed b) ∧
      ((sub a b).carry = true ↔ a.toNat < b.toNat)) ∧
    ((mul a b).Tells (unsigned a * unsigned b) (signed a * signed b) ∧
      checkedMul a b = some (mul a b)) ∧
    (neg b = sub 0 b ∧ ((neg b).carry = true ↔ b ≠ 0) ∧
      ((neg b).overflow = true ↔ signed b = -2 ^ 31)) ∧
    ∀ (r : Outcome) (f : Flags), r.apply f = {
      zero := r.value = 0
      negative := r.value.toNat.testBit 31
      carry := r.carry
      overflow := r.overflow } := by
  refine ⟨add_tells a b, ⟨sub_tells a b, carry_sub_iff a b⟩, ⟨mul_tells a b, checkedMul_eq a b⟩,
    ⟨rfl, carry_neg_iff b, overflow_neg_iff b⟩, fun r f => ?_⟩
  have hsign : decide (signed r.value < 0) = r.value.toNat.testBit 31 := by
    rw [Bool.eq_iff_iff, decide_eq_true_iff, signed_neg_iff]
  rw [apply_eq, hsign]

end Alu

end SandboxCpu
