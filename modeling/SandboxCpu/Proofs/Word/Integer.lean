import Mathlib.Algebra.Group.Int.Defs
import Mathlib.Algebra.Group.Nat.Defs
import SandboxCpu.Memory.AddressSpace
import SandboxCpu.Word.Field

/-!
# Words as integers

A word stands for an integer in two ways, without a sign and in two's
complement, and every integer has a word, the one that is congruent to it
modulo `2 ^ 32` (`UInt32.ofInt`).  Here the operations on words that are made of
bits are read as operations on integers: shifts, fields, sign extension, the
test of the highest bit, and the four bytes of a word.

Nothing here is about a particular instruction.  A specification that speaks of
integers can be compared with code that masks and shifts through these lemmas
alone.

## Main results

* `Word.and_signBit` — the masked highest bit is the sign.
* `BitRange.toNat_read` — a field is a quotient and a remainder.
* `ofInt_signExtend` — extending a sign is taking a balanced remainder.
* `LittleEndian.bytes_eq`, `Memory.toNat_wordAt` — a word in base 256.
-/

namespace SandboxCpu

namespace Word

/-- A word read without a sign. -/
def unsigned (w : UInt32) : Int := w.toNat

/-- A word read in two's complement. -/
def signed (w : UInt32) : Int := if w.toNat < 2 ^ 31 then w.toNat else w.toNat - 2 ^ 32

/-- A word moved by an integer, which wraps around. -/
def plus (w : UInt32) (z : Int) : UInt32 := UInt32.ofInt (unsigned w + z)

/-! ## The two readings -/

theorem signed_bounds (w : UInt32) : -2 ^ 31 ≤ signed w ∧ signed w < 2 ^ 31 := by
  have := w.toNat_lt
  unfold signed
  split <;> omega

theorem signed_inj {a b : UInt32} : signed a = signed b ↔ a = b := by
  have ha := a.toNat_lt
  have hb := b.toNat_lt
  rw [← UInt32.toNat_inj, signed, signed]
  split <;> split <;> omega

theorem toInt_toBitVec (w : UInt32) : w.toBitVec.toInt = signed w := by
  rw [BitVec.toInt_eq_toNat_cond, signed, UInt32.toNat_toBitVec]
  have := w.toNat_lt
  split <;> split <;> omega

theorem toInt_toInt32 (w : UInt32) : w.toInt32.toInt = signed w := toInt_toBitVec w

theorem toNat_ofInt (z : Int) : (UInt32.ofInt z).toNat = (z % 2 ^ 32).toNat := by
  rw [UInt32.ofInt, UInt32.toNat_ofNat']
  omega

@[simp] theorem ofInt_unsigned (w : UInt32) : UInt32.ofInt (unsigned w) = w := by
  apply UInt32.toNat_inj.mp
  have := w.toNat_lt
  rw [toNat_ofInt, unsigned]
  omega

theorem plus_eq (w : UInt32) (z : Int) : plus w z = w + UInt32.ofInt z := by
  rw [plus, UInt32.ofInt_add, ofInt_unsigned]

theorem plus_unsigned (a b : UInt32) : plus a (unsigned b) = a + b := by
  rw [plus_eq, ofInt_unsigned]

theorem plus_four (w : UInt32) : plus w 4 = w + 4 := plus_eq w 4

theorem plus_neg_four (w : UInt32) : plus w (-4) = w - 4 := by
  rw [plus_eq, UInt32.sub_eq_add_neg]
  rfl

/-- An integer between the bounds of the two's complement reading is that of its
word. -/
theorem ofInt_eq_toUInt32 (i : Int32) : UInt32.ofInt i.toInt = i.toUInt32 := by
  have hsigned : i.toInt = signed i.toUInt32 := toInt_toBitVec i.toUInt32
  apply UInt32.toNat_inj.mp
  have := i.toUInt32.toNat_lt
  rw [hsigned, toNat_ofInt, signed]
  split <;> omega

/-! ## Quotients and comparisons -/

theorem ofNat_div (a b : UInt32) : UInt32.ofNat (a.toNat / b.toNat) = a / b := by
  rw [← UInt32.toNat_div, UInt32.ofNat_toNat]

theorem ofNat_mod (a b : UInt32) : UInt32.ofNat (a.toNat % b.toNat) = a % b := by
  rw [← UInt32.toNat_mod, UInt32.ofNat_toNat]

theorem lt_iff_signed (a b : UInt32) : a.toInt32 < b.toInt32 ↔ signed a < signed b := by
  rw [Int32.lt_iff_toInt_lt, toInt_toInt32, toInt_toInt32]

theorem le_iff_signed (a b : UInt32) : a.toInt32 ≤ b.toInt32 ↔ signed a ≤ signed b := by
  rw [Int32.le_iff_toInt_le, toInt_toInt32, toInt_toInt32]

/-! ## Bits -/

theorem msb_toBitVec (w : UInt32) : w.toBitVec.msb = decide (signed w < 0) := by
  rw [BitVec.msb_eq_toInt, toInt_toBitVec]

/-- The highest bit, masked out, is the sign. -/
theorem and_signBit (w : UInt32) : (w &&& 0x80000000 != 0) = w.toBitVec.msb := by
  have htwo : (0x80000000 : UInt32).toBitVec = BitVec.twoPow 32 31 := by decide
  have hbit : w.toBitVec.msb = w.toBitVec.getLsbD 31 := BitVec.msb_eq_getLsbD_last _
  have hzero : w &&& 0x80000000 = 0 ↔ w.toBitVec.getLsbD 31 = false := by
    rw [← UInt32.toBitVec_inj, UInt32.toBitVec_and, htwo, BitVec.and_twoPow]
    cases w.toBitVec.getLsbD 31 <;> decide
  rw [hbit, Bool.eq_iff_iff, bne_iff_ne, ne_eq, hzero, Bool.not_eq_false]

/-- The five bits that a shift looks at. -/
theorem toNat_and_shiftMask (w : UInt32) : (w &&& 31).toNat = w.toNat % 32 := by
  rw [UInt32.toNat_and]
  exact Nat.and_two_pow_sub_one_eq_mod w.toNat 5

/-- A shift to the left multiplies. -/
theorem shiftLeft_eq (a b : UInt32) :
    a <<< (b &&& 31) = UInt32.ofNat (a.toNat * 2 ^ (b.toNat % 32)) := by
  apply UInt32.toNat_inj.mp
  rw [UInt32.toNat_shiftLeft, toNat_and_shiftMask, Nat.mod_mod, Nat.shiftLeft_eq,
    UInt32.toNat_ofNat']

/-- A shift to the right divides. -/
theorem shiftRight_eq (a b : UInt32) :
    a >>> (b &&& 31) = UInt32.ofNat (a.toNat / 2 ^ (b.toNat % 32)) := by
  apply UInt32.toNat_inj.mp
  have hlt : a.toNat / 2 ^ (b.toNat % 32) < 2 ^ 32 :=
    Nat.lt_of_le_of_lt (Nat.div_le_self _ _) a.toNat_lt
  rw [UInt32.toNat_shiftRight, toNat_and_shiftMask, Nat.mod_mod, Nat.shiftRight_eq_div_pow,
    UInt32.toNat_ofNat', Nat.mod_eq_of_lt hlt]

/-- One bit, moved up by less than the width of a word. -/
theorem toNat_one_shiftLeft {n : Nat} (hn : n < 32) :
    ((1 : UInt32) <<< UInt32.ofNat n).toNat = 2 ^ n := by
  have hamount : (UInt32.ofNat n).toNat % 32 = n := by
    rw [UInt32.toNat_ofNat']
    omega
  rw [UInt32.toNat_shiftLeft, hamount, UInt32.toNat_one, Nat.one_shiftLeft,
    Nat.mod_eq_of_lt (Nat.pow_lt_pow_right (by decide) hn)]

/-- The upper half of a word, filled with an integer. -/
theorem ofInt_shiftLeft (z : Int) : UInt32.ofInt (z * 2 ^ 16) = UInt32.ofInt z <<< 16 := by
  have hshift := shiftLeft_eq (UInt32.ofInt z) 16
  rw [show ((16 : UInt32) &&& 31) = 16 from rfl] at hshift
  rw [hshift, UInt32.ofNat_mul, UInt32.ofNat_toNat, UInt32.ofInt_mul]
  rfl

end Word

/-! ## Fields -/

namespace BitRange

theorem toNat_mask (r : BitRange) : r.mask.toNat = 2 ^ r.width - 1 := by
  have hwidth : r.width ≤ 32 := by
    have := r.stop_le_width
    unfold width
    omega
  unfold mask
  split
  · rename_i h
    rw [h]
    rfl
  · rename_i h
    have hone := Word.toNat_one_shiftLeft (n := r.width) (by omega)
    have hpos : (1 : UInt32) ≤ 1 <<< UInt32.ofNat r.width := by
      rw [UInt32.le_iff_toNat_le, hone, UInt32.toNat_one]
      exact Nat.one_le_two_pow
    rw [UInt32.toNat_sub_of_le _ _ hpos, hone, UInt32.toNat_one]

/-- A field is what is left of a word when the bits below and above it are cut
off. -/
theorem toNat_read (r : BitRange) (w : UInt32) :
    (r.read w).toNat = w.toNat / 2 ^ r.start % 2 ^ r.width := by
  have hle := r.start_le_stop
  have hstop := r.stop_le_width
  unfold read
  split
  · rename_i h
    rw [width, h, Nat.sub_self, Nat.pow_zero, Nat.mod_one]
    rfl
  · rename_i h
    have hstart : r.start % 2 ^ 32 % 32 = r.start := by omega
    rw [UInt32.toNat_and, toNat_mask, Nat.and_two_pow_sub_one_eq_mod, UInt32.toNat_shiftRight,
      UInt32.toNat_ofNat', hstart, Nat.shiftRight_eq_div_pow]

end BitRange

/-- Between bounds that lie `2 ^ n` apart a balanced remainder is the integer itself. -/
theorem bmod_two_pow_eq {n : Nat} (hn : 0 < n) {z : Int} (hlo : -2 ^ (n - 1) ≤ z)
    (hhi : z < 2 ^ (n - 1)) : z.bmod (2 ^ n) = z := by
  obtain ⟨k, rfl⟩ : ∃ k, n = k + 1 := ⟨n - 1, by omega⟩
  rw [Nat.add_sub_cancel] at hlo hhi
  have htwo : ((2 ^ (k + 1) : Nat) : Int) = 2 ^ k * 2 := by rw [Nat.pow_succ]; push_cast; rfl
  apply Int.bmod_eq_of_le_mul_two
  · rw [htwo]
    omega
  · rw [htwo]
    omega

/-- Extending a sign takes the balanced remainder. -/
theorem ofInt_signExtend (width : SignWidth) (w : UInt32) :
    (signExtend width w).toUInt32 = UInt32.ofInt ((w.toNat : Int).bmod (2 ^ width.bits)) := by
  rw [← Word.ofInt_eq_toUInt32, toInt_signExtend, BitVec.toInt_setWidth]
  rfl

/-! ## Bytes -/

/-- The bytes of a word are its digits in base 256. -/
theorem LittleEndian.bytes_eq (w : UInt32) :
    bytes w = (List.range 4).map fun i => UInt8.ofNat (w.toNat / 256 ^ i) := by
  have hrange : List.range 4 = [0, 1, 2, 3] := rfl
  rw [bytes, hrange]
  simp only [List.map_cons, List.map_nil, List.cons.injEq, and_true]
  refine ⟨?_, ?_, ?_, ?_⟩ <;> apply UInt8.toNat_inj.mp <;>
    simp only [UInt32.toNat_toUInt8, UInt8.toNat_ofNat', UInt32.toNat_shiftRight,
      UInt32.toNat_ofNat, Nat.shiftRight_eq_div_pow, Nat.reduceMod, Nat.reducePow, Nat.div_one]

/-- The word at an address is the number whose digits in base 256 stand there. -/
theorem Memory.toNat_wordAt (m : Memory) (addr : Nat) :
    (m.wordAt addr).toNat = (m.byteAt addr).toNat + 256 * (m.byteAt (addr + 1)).toNat +
      256 ^ 2 * (m.byteAt (addr + 2)).toNat + 256 ^ 3 * (m.byteAt (addr + 3)).toNat := by
  have h₀ := (m.byteAt addr).toNat_lt
  have h₁ := (m.byteAt (addr + 1)).toNat_lt
  have h₂ := (m.byteAt (addr + 2)).toNat_lt
  have h₃ := (m.byteAt (addr + 3)).toNat_lt
  simp only [wordAt, LittleEndian.word, UInt32.toNat_add, UInt32.toNat_mul,
    UInt8.toNat_toUInt32, UInt32.toNat_ofNat]
  omega

end SandboxCpu
