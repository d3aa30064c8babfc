import SandboxCpu.Proofs.Word.Integer

/-!
# Fields as lenses

Reading and writing a field, said bit by bit: a field that is read has the bits of
its range, moved down, and a word that is written has the new value in that range
and its old bits elsewhere (`testBit_read`, `testBit_write`).  All else follows from
these two.  What was written is read back, what was read can be written back, of two
writes the second counts, a write does not disturb the fields that share no bit with it,
and a word whose fields are copied one after the other is the old word behind a mask
that grows with each copy (`write_read_and`).

The last is what makes encoders and decoders comparable: a decoder reads fields,
an encoder writes them onto zero, which is any word behind the empty mask.
-/

namespace SandboxCpu

/-- A word is its bits. -/
theorem Word.eq_of_testBit {a b : UInt32} (h : ∀ k, a.toNat.testBit k = b.toNat.testBit k) :
    a = b :=
  UInt32.toNat_inj.mp (Nat.eq_of_testBit_eq h)

/-- A word has no bits beyond the thirty-second. -/
theorem Word.testBit_of_le {a : UInt32} {k : Nat} (hk : 32 ≤ k) : a.toNat.testBit k = false :=
  Nat.testBit_lt_two_pow (Nat.lt_of_lt_of_le a.toNat_lt (Nat.pow_le_pow_right (by decide) hk))

theorem Word.testBit_not (a : UInt32) (k : Nat) :
    (~~~a).toNat.testBit k = (decide (k < 32) && !a.toNat.testBit k) := by
  have hnot : (~~~a).toNat = 2 ^ 32 - (a.toNat + 1) := by
    rw [UInt32.toNat_not, UInt32.size]
    omega
  rw [hnot, Nat.testBit_two_pow_sub_succ a.toNat_lt]

/-- A word moved up by less than its width. -/
theorem Word.testBit_shiftLeft (a : UInt32) {n : Nat} (hn : n < 32) (k : Nat) :
    (a <<< UInt32.ofNat n).toNat.testBit k =
      (decide (k < 32) && decide (n ≤ k) && a.toNat.testBit (k - n)) := by
  have hamount : (UInt32.ofNat n).toNat % 32 = n := by
    rw [UInt32.toNat_ofNat']
    omega
  rw [UInt32.toNat_shiftLeft, hamount, Nat.testBit_mod_two_pow, Nat.testBit_shiftLeft,
    Bool.and_assoc]

/-- A mask leaves a word as it is exactly when the word has no bit outside it. -/
theorem Word.and_eq_self_iff (w mask : UInt32) : w &&& mask = w ↔ w &&& ~~~mask = 0 := by
  constructor
  · intro h
    rw [← h, UInt32.and_assoc, UInt32.and_not_self, UInt32.and_zero]
  · intro h
    apply Word.eq_of_testBit
    intro k
    have hk := congrArg (fun a : UInt32 => a.toNat.testBit k) h
    simp only [UInt32.toNat_and, Nat.testBit_and, Word.testBit_not, UInt32.toNat_zero,
      Nat.zero_testBit] at hk
    rw [UInt32.toNat_and, Nat.testBit_and]
    by_cases hlt : k < 32
    · cases hw : w.toNat.testBit k <;> simp_all
    · rw [Word.testBit_of_le (by omega), Bool.false_and]

namespace BitRange

variable (r : BitRange) (w value : UInt32)

theorem testBit_mask (k : Nat) : r.mask.toNat.testBit k = decide (k < r.width) := by
  rw [toNat_mask, Nat.testBit_two_pow_sub_one]

/-- The bits of a field are those of its range. -/
theorem testBit_read (k : Nat) :
    (r.read w).toNat.testBit k = (decide (k < r.width) && w.toNat.testBit (r.start + k)) := by
  rw [toNat_read, Nat.testBit_mod_two_pow, Nat.testBit_div_two_pow, Nat.add_comm]

/-- A written word has the new bits in the range and the old ones elsewhere. -/
theorem testBit_write (k : Nat) :
    (r.write w value).toNat.testBit k =
      if r.start ≤ k ∧ k < r.stop then value.toNat.testBit (k - r.start)
      else w.toNat.testBit k := by
  have hstart := r.start_le_stop
  have hstop := r.stop_le_width
  unfold write
  split
  · rw [if_neg (by omega)]
  · have hlt : r.start < 32 := by omega
    rw [UInt32.toNat_or, Nat.testBit_or, UInt32.toNat_and, Nat.testBit_and, Word.testBit_not,
      Word.testBit_shiftLeft _ hlt, Word.testBit_shiftLeft _ hlt, UInt32.toNat_and,
      Nat.testBit_and, testBit_mask, width]
    by_cases hrange : r.start ≤ k ∧ k < r.stop
    · have hk : k < 32 := by omega
      have hwidth : k - r.start < r.stop - r.start := by omega
      simp only [hrange, hk, hwidth, decide_true, Bool.and_true, Bool.true_and, Bool.not_true,
        Bool.and_false, Bool.false_or, and_self, ↓reduceIte]
    · have hout : (decide (r.start ≤ k) && decide (k - r.start < r.stop - r.start)) = false := by
        simp only [Bool.and_eq_false_iff, decide_eq_false_iff_not]
        omega
      have hvalue : (decide (k < 32) && decide (r.start ≤ k) &&
          (value.toNat.testBit (k - r.start) && decide (k - r.start < r.stop - r.start))) =
          false := by
        simp only [Bool.and_eq_false_iff, decide_eq_false_iff_not] at hout ⊢
        omega
      rw [if_neg hrange, hvalue, Bool.and_assoc, hout, Bool.or_false]
      by_cases hk : k < 32
      · simp only [hk, decide_true, Bool.and_false, Bool.not_false, Bool.and_true]
      · rw [Word.testBit_of_le (by omega), Bool.false_and]

/-! ## The laws of lenses -/

/-- What was written is read back, as far as it fits. -/
theorem toNat_read_write : (r.read (r.write w value)).toNat = value.toNat % 2 ^ r.width := by
  apply Nat.eq_of_testBit_eq
  intro k
  have hle := r.start_le_stop
  rw [testBit_read, testBit_write, Nat.testBit_mod_two_pow, Nat.add_sub_cancel_left]
  by_cases hk : k < r.width
  · rw [if_pos (by unfold width at hk; omega)]
  · simp only [hk, decide_false, Bool.false_and]

/-- Writing a field back as it was read changes nothing. -/
theorem write_read : r.write w (r.read w) = w := by
  apply Word.eq_of_testBit
  intro k
  rw [testBit_write, testBit_read]
  split
  · rename_i hrange
    have hk : k - r.start < r.width := by unfold width; omega
    rw [Nat.add_sub_cancel' hrange.1]
    simp only [hk, decide_true, Bool.true_and]
  · rfl

/-- Of two writes to one range the second counts. -/
theorem write_write (value' : UInt32) : r.write (r.write w value) value' = r.write w value' := by
  apply Word.eq_of_testBit
  intro k
  rw [testBit_write, testBit_write, testBit_write]
  split <;> rfl

/-- Ranges that share no bit.  An empty range shares none, wherever it lies. -/
def Apart (r s : BitRange) : Prop :=
  ∀ k, r.start ≤ k → k < r.stop → ¬ (s.start ≤ k ∧ k < s.stop)

theorem Apart.symm {r s : BitRange} (h : r.Apart s) : s.Apart r :=
  fun k hlo hhi hr => h k hr.1 hr.2 ⟨hlo, hhi⟩

/-- Ranges are apart when one ends before the other starts. -/
theorem apart_of_le {r s : BitRange} (h : r.stop ≤ s.start ∨ s.stop ≤ r.start) : r.Apart s := by
  intro k hlo hhi hs
  omega

/-- A write does not disturb the fields that share no bit with it. -/
theorem read_write_of_apart {s : BitRange} (h : r.Apart s) :
    s.read (r.write w value) = s.read w := by
  apply Word.eq_of_testBit
  intro k
  rw [testBit_read, testBit_read, testBit_write]
  by_cases hk : k < s.width
  · have hlo : s.start ≤ s.start + k := by omega
    have hhi : s.start + k < s.stop := by unfold width at hk; omega
    rw [if_neg (h.symm (s.start + k) hlo hhi)]
  · simp only [hk, decide_false, Bool.false_and]

/-- Two writes that share no bit may be done in either order. -/
theorem write_comm_of_apart {s : BitRange} (h : r.Apart s) (value' : UInt32) :
    s.write (r.write w value) value' = r.write (s.write w value') value := by
  apply Word.eq_of_testBit
  intro k
  simp only [testBit_write]
  by_cases hk : s.start ≤ k ∧ k < s.stop
  · rw [if_pos hk, if_neg (h.symm k hk.1 hk.2), if_pos hk]
  · rw [if_neg hk, if_neg hk]

/-- Only the bits that fit are written. -/
theorem write_congr {value value' : UInt32}
    (h : value.toNat % 2 ^ r.width = value'.toNat % 2 ^ r.width) :
    r.write w value = r.write w value' := by
  apply Word.eq_of_testBit
  intro k
  rw [testBit_write, testBit_write]
  split
  · rename_i hrange
    have hbit := congrArg (·.testBit (k - r.start)) h
    simp only [Nat.testBit_mod_two_pow] at hbit
    have hk : k - r.start < r.width := by unfold width; omega
    simpa only [hk, decide_true, Bool.true_and] using hbit
  · rfl

/-! ## Copying fields behind a mask -/

/-- The mask that lets a field pass too. -/
def widen (mask : UInt32) : UInt32 := r.write mask 0xFFFFFFFF

/-- Copying a field of a word onto what a mask leaves of it widens the mask. -/
theorem write_read_and (mask : UInt32) :
    r.write (w &&& mask) (r.read w) = w &&& r.widen mask := by
  apply Word.eq_of_testBit
  intro k
  have hstop := r.stop_le_width
  have hones : (0xFFFFFFFF : UInt32).toNat = 2 ^ 32 - 1 := rfl
  rw [testBit_write, testBit_read, UInt32.toNat_and, Nat.testBit_and, UInt32.toNat_and,
    Nat.testBit_and, widen, testBit_write, hones, Nat.testBit_two_pow_sub_one]
  split
  · rename_i hrange
    have hk : k - r.start < r.width := by unfold width; omega
    have hlt : k - r.start < 32 := by omega
    rw [Nat.add_sub_cancel' hrange.1]
    simp only [hk, hlt, decide_true, Bool.true_and, Bool.and_true]
  · rfl

/-- Writing zeros behind a mask narrows it. -/
theorem write_zero_and (mask : UInt32) : r.write (w &&& mask) 0 = w &&& r.write mask 0 := by
  apply Word.eq_of_testBit
  intro k
  rw [testBit_write, UInt32.toNat_and, Nat.testBit_and, UInt32.toNat_and, Nat.testBit_and,
    testBit_write]
  split
  · simp only [UInt32.toNat_zero, Nat.zero_testBit, Bool.and_false]
  · rfl

end BitRange

end SandboxCpu
