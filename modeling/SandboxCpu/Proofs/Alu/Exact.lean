import SandboxCpu.Alu
import SandboxCpu.Proofs.Word.Integer

/-!
# Arithmetic with flags, against the integers

An operation of arithmetic is given by an operation on integers
(`Alu.exact`).  Done on the unsigned readings of two words it gives the value,
modulo `2 ^ 32`, and the carry, which says that the exact result is not the
unsigned reading of any word.  Done on the signed readings it gives the
overflow, which says the same of two's complement.

Addition, subtraction, multiplication and negation are all of this kind.  The
tests by which they find carry and overflow, a sum below its term or a masked
sign bit, are thereby tests for leaving a range.
-/

namespace SandboxCpu.Alu

open Word

/-- What an operation on integers comes to for two words. -/
def exact (f : Int → Int → Int) (a b : UInt32) : Outcome where
  value := UInt32.ofInt (f (unsigned a) (unsigned b))
  carry := f (unsigned a) (unsigned b) < 0 ∨ 2 ^ 32 ≤ f (unsigned a) (unsigned b)
  overflow := f (signed a) (signed b) < -2 ^ 31 ∨ 2 ^ 31 ≤ f (signed a) (signed b)

/-- The flags after an outcome, as statements about its value. -/
theorem apply_eq (r : Outcome) (f : Flags) :
    r.apply f = {
      zero := r.value = 0
      negative := signed r.value < 0
      carry := r.carry
      overflow := r.overflow } := by
  rw [Outcome.apply, Flags.updateZN, and_signBit, msb_toBitVec]
  rfl

theorem updateZN_eq (f : Flags) (value : UInt32) :
    f.updateZN value = { f with zero := value = 0, negative := signed value < 0 } := by
  rw [Flags.updateZN, and_signBit, msb_toBitVec]
  rfl

/-! ## Sums and differences -/

theorem add_eq_exact (a b : UInt32) : add a b = exact (· + ·) a b := by
  have hsum := UInt32.toNat_add a b
  have ha := a.toNat_lt
  have hb := b.toNat_lt
  simp only [add, exact, Outcome.mk.injEq]
  refine ⟨?_, ?_, ?_⟩
  · rw [UInt32.ofInt_add, ofInt_unsigned, ofInt_unsigned]
  · rw [decide_eq_decide, UInt32.lt_iff_toNat_lt, hsum, unsigned, unsigned]
    omega
  · -- The sign of the sum differs from both when they agree and the sum does not fit.
    rw [and_signBit, Bool.eq_iff_iff]
    simp only [UInt32.toBitVec_and, UInt32.toBitVec_xor, BitVec.msb_and, BitVec.msb_xor,
      msb_toBitVec, signed, hsum]
    split <;> split <;> split <;> simp <;> omega

theorem sub_eq_exact (a b : UInt32) : sub a b = exact (· - ·) a b := by
  have hdifference := UInt32.toNat_sub a b
  have ha := a.toNat_lt
  have hb := b.toNat_lt
  simp only [sub, exact, Outcome.mk.injEq]
  refine ⟨?_, ?_, ?_⟩
  · apply UInt32.toNat_inj.mp
    rw [toNat_ofInt, hdifference, unsigned, unsigned]
    omega
  · rw [decide_eq_decide, UInt32.lt_iff_toNat_lt, unsigned, unsigned]
    omega
  · rw [and_signBit, Bool.eq_iff_iff]
    simp only [UInt32.toBitVec_and, UInt32.toBitVec_xor, BitVec.msb_and, BitVec.msb_xor,
      msb_toBitVec, signed, hdifference]
    split <;> split <;> split <;> simp <;> omega

theorem neg_eq_exact (a : UInt32) : neg a = exact (· - ·) 0 a := sub_eq_exact 0 a

/-! ## Products -/

theorem toNat_mul_toNat_lt (a b : UInt32) : a.toNat * b.toNat < 2 ^ 64 := by
  have hlt : a.toNat * b.toNat < 2 ^ 32 * 2 ^ 32 := Nat.mul_lt_mul'' a.toNat_lt b.toNat_lt
  omega

/-- The product of two words fits into 64 bits. -/
theorem toNat_wideProduct (a b : UInt32) :
    (a.toUInt64 * b.toUInt64).toNat = a.toNat * b.toNat := by
  rw [UInt64.toNat_mul, UInt32.toNat_toUInt64, UInt32.toNat_toUInt64]
  exact Nat.mod_eq_of_lt (toNat_mul_toNat_lt a b)

theorem signedProduct_bounds (a b : UInt32) :
    -2 ^ 62 ≤ signed a * signed b ∧ signed a * signed b ≤ 2 ^ 62 := by
  have ha : (signed a).natAbs ≤ 2 ^ 31 := by
    have := signed_bounds a
    omega
  have hb : (signed b).natAbs ≤ 2 ^ 31 := by
    have := signed_bounds b
    omega
  have hproduct := Nat.mul_le_mul ha hb
  rw [← Int.natAbs_mul] at hproduct
  omega

/-- So does the product of their signed readings. -/
theorem toInt_signedProduct (a b : UInt32) :
    (a.toInt32.toInt64 * b.toInt32.toInt64).toInt = signed a * signed b := by
  have hbounds := signedProduct_bounds a b
  rw [Int64.toInt_mul, Int32.toInt_toInt64, Int32.toInt_toInt64, toInt_toInt32, toInt_toInt32]
  exact Int.bmod_eq_of_le (by omega) (by omega)

/-- A product of 64 bits is the same after a passage through 32 exactly when it is
within their range. -/
theorem toInt_narrowed (z : Int64) :
    z.toInt32.toInt64 = z ↔ -2 ^ 31 ≤ z.toInt ∧ z.toInt < 2 ^ 31 := by
  rw [← Int64.toInt_inj, Int32.toInt_toInt64, Int64.toInt_toInt32, Int.bmod_def]
  split <;> omega

theorem mul_eq_exact (a b : UInt32) : mul a b = exact (· * ·) a b := by
  have hwide := toNat_wideProduct a b
  simp only [mul, exact, Outcome.mk.injEq]
  refine ⟨?_, ?_, ?_⟩
  · apply UInt32.toNat_inj.mp
    rw [UInt64.toNat_toUInt32, hwide, toNat_ofInt, unsigned, unsigned]
    omega
  · have hlimit : (0xFFFFFFFF : UInt64).toNat = 0xFFFFFFFF := rfl
    rw [decide_eq_decide, UInt64.lt_iff_toNat_lt, hwide, hlimit, unsigned, unsigned,
      ← Int.natCast_mul]
    omega
  · have hnarrowed := toInt_narrowed (a.toInt32.toInt64 * b.toInt32.toInt64)
    rw [toInt_signedProduct] at hnarrowed
    rw [Bool.eq_iff_iff, bne_iff_ne, ne_eq, eq_comm, hnarrowed, decide_eq_true_eq]
    omega

end SandboxCpu.Alu
