import Mathlib.Data.Int.ModEq
import SandboxCpu.Proofs.Word.Lens

/-!
# Fields with every step checked

A field is read and written by masks and shifts, and a sign is extended by one shift up and
one down.  A word says nothing when such a step is not defined: it takes the amount of a
shift modulo its width, and a difference below zero wraps around.  So the operations are
carried out once more, from bounds that are words themselves, with every difference and
every shift checked (`checkedRead`, `checkedWrite`, `checkedSignExtend`).  None of the
steps fails, at no width from nothing to the whole word, and what they come to is what
was read, written or extended without them.

The extended sign is characterised apart from any shift.  Between two bounds that lie
`2 ^ n` apart there is one integer in each class modulo `2 ^ n`, and the extension of the
low `n` bits is the one in the class of the word (`eq_toInt_signExtend_iff`).

## Main result

* `fields_form_lens`: bits, laws, bounds and steps of fields, and signs.
-/

namespace SandboxCpu

namespace Word

/-- A difference, unless it is below zero. -/
def checkedSub (a b : UInt32) : Option UInt32 := if b ≤ a then some (a - b) else none

/-- A word shifted up, unless by its width or more. -/
def checkedShiftLeft (a amount : UInt32) : Option UInt32 :=
  if amount < 32 then some (a <<< amount) else none

/-- A word shifted down, unless by its width or more. -/
def checkedShiftRight (a amount : UInt32) : Option UInt32 :=
  if amount < 32 then some (a >>> amount) else none

/-- A signed word shifted down, unless by its width or more. -/
def checkedShiftRightSigned (a : Int32) (amount : UInt32) : Option Int32 :=
  if amount < 32 then some (a >>> amount.toInt32) else none

/-- Moving bits to the top of a word and back again extends the sign of the highest of
them. -/
theorem sshiftRight_shiftLeft {n : Nat} (hlo : 1 ≤ n) (hhi : n ≤ 32) (x : BitVec 32) :
    (x <<< (32 - n)).sshiftRight (32 - n) = (x.setWidth n).signExtend 32 := by
  apply BitVec.eq_of_getLsbD_eq
  intro i hi
  rw [BitVec.getLsbD_sshiftRight, BitVec.getLsbD_signExtend, BitVec.msb_shiftLeft,
    BitVec.msb_setWidth, BitVec.getMsbD]
  have hsign : 32 - 1 - (32 - n) = n - 1 := by omega
  by_cases h : i < n
  · have hin : 32 - n + i < 32 := by omega
    have hback : 32 - n + i - (32 - n) = i := by omega
    have hnot : ¬ 32 - n + i < 32 - n := by omega
    have hi' : ¬ 32 ≤ i := by omega
    rw [if_pos hin, if_pos h, BitVec.getLsbD_shiftLeft, BitVec.getLsbD_setWidth, hback]
    simp only [hi, hi', hin, hnot, h, decide_true, decide_false, Bool.not_false, Bool.true_and]
  · have hout : ¬ 32 - n + i < 32 := by omega
    have hn : 32 - n < 32 := by omega
    have hpos : 0 < n := hlo
    have hi' : ¬ 32 ≤ i := by omega
    rw [if_neg hout, if_neg h, hsign]
    simp only [hi, hi', hn, hpos, decide_true, decide_false, Bool.not_false, Bool.true_and]

/-- An amount less than the width is taken as it is, modulo the width, -/
theorem umod_width {a : BitVec 32} (h : a.toNat < 32) : a % 32 = a := by
  apply BitVec.eq_of_toNat_eq
  rw [BitVec.toNat_umod]
  exact Nat.mod_eq_of_lt h

/-- and with a sign too, since it has none. -/
theorem smod_width {a : BitVec 32} (h : a.toNat < 32) : a.smod 32 = a := by
  have hmsb : a.msb = false := by
    rw [BitVec.msb_eq_false_iff_two_mul_lt]
    omega
  rw [BitVec.smod_eq, hmsb]
  exact umod_width h

end Word

namespace BitRange

/-! ## Reading and writing -/

/-- The mask of a field between two bounds. -/
def checkedMask (start stop : UInt32) : Option UInt32 := do
  let width ← Word.checkedSub stop start
  if width = 32 then return 0xFFFFFFFF
  Word.checkedSub (← Word.checkedShiftLeft 1 width) 1

/-- The bounds come first, and the steps after them only if they are those of a field. -/
def afterBounds (start stop : UInt32) (steps : Option UInt32) : Option (Except FieldError UInt32) :=
  if 32 < stop then some (.error .endOutOfBounds)
  else if stop < start then some (.error .reversed)
  else steps.map .ok

/-- The field between two bounds.  There is no answer when a step is not defined. -/
def checkedRead (start stop word : UInt32) : Option (Except FieldError UInt32) :=
  afterBounds start stop do
    let mask ← checkedMask start stop
    if start = stop then return 0
    return (← Word.checkedShiftRight word start) &&& mask

/-- The word with another field between two bounds. -/
def checkedWrite (start stop word value : UInt32) : Option (Except FieldError UInt32) :=
  afterBounds start stop do
    let mask ← checkedMask start stop
    if start = stop then return word
    return (word &&& ~~~(← Word.checkedShiftLeft mask start)) |||
      (← Word.checkedShiftLeft (value &&& mask) start)

/-- Bounds are refused when they leave the word or are reversed. -/
theorem ofBounds_eq_error_iff {start stop : Nat} :
    (∃ e, ofBounds start stop = .error e) ↔ 32 < stop ∨ stop < start := by
  unfold ofBounds
  split
  · rename_i hout
    exact iff_of_true ⟨_, rfl⟩ (.inl hout)
  · split
    · rename_i hreversed
      exact iff_of_true ⟨_, rfl⟩ (.inr hreversed)
    · refine iff_of_false ?_ (by omega)
      rintro ⟨e, he⟩
      cases he

/-- Steps that come to a result for every field come to it behind the bounds. -/
theorem afterBounds_eq {start stop : UInt32} {steps : Option UInt32} {f : BitRange → UInt32}
    (h : ∀ r : BitRange, r.start = start.toNat → r.stop = stop.toNat → steps = some (f r)) :
    afterBounds start stop steps = some ((ofBounds start.toNat stop.toNat).map f) := by
  unfold afterBounds ofBounds
  simp only [UInt32.lt_iff_toNat_lt, UInt32.reduceToNat]
  split
  · rfl
  · split
    · rfl
    · rw [h ⟨start.toNat, stop.toNat, by omega, by omega⟩ rfl rfl]
      rfl

section Steps

variable {r : BitRange} {start stop : UInt32}

theorem checkedMask_eq (hstart : r.start = start.toNat) (hstop : r.stop = stop.toNat) :
    checkedMask start stop = some r.mask := by
  have hle := r.start_le_stop
  have hstop_le := r.stop_le_width
  have hordered : start ≤ stop := by
    rw [UInt32.le_iff_toNat_le]
    omega
  have hwidth : (stop - start).toNat = r.width := by
    rw [UInt32.toNat_sub_of_le _ _ hordered, width, hstart, hstop]
  have hfull : stop - start = 32 ↔ r.width = 32 := by
    rw [← hwidth, ← UInt32.toNat_inj]
    rfl
  rw [checkedMask, Word.checkedSub, if_pos hordered, mask]
  show (if stop - start = 32 then some 0xFFFFFFFF else _) = _
  by_cases h : r.width = 32
  · rw [if_pos (hfull.mpr h), if_pos h]
  · have hnarrow : r.width < 32 := by
      unfold width at h ⊢
      omega
    have hamount : stop - start < 32 := by
      rw [UInt32.lt_iff_toNat_lt, hwidth]
      exact hnarrow
    have hone := Word.toNat_one_shiftLeft hnarrow
    rw [← hwidth, UInt32.ofNat_toNat] at hone
    have hpos : 1 ≤ (1 : UInt32) <<< (stop - start) := by
      rw [UInt32.le_iff_toNat_le, hone, UInt32.toNat_one]
      exact Nat.one_le_two_pow
    rw [if_neg (mt hfull.mp h), if_neg h, Word.checkedShiftLeft, if_pos hamount, ← hwidth,
      UInt32.ofNat_toNat]
    show Word.checkedSub _ 1 = _
    rw [Word.checkedSub, if_pos hpos]

/-- A field that is not empty starts in the word. -/
theorem start_lt_of_ne (hstart : r.start = start.toNat) (hstop : r.stop = stop.toNat)
    (h : start ≠ stop) : start < 32 := by
  have hle := r.start_le_stop
  have hstop_le := r.stop_le_width
  have hne : start.toNat ≠ stop.toNat := mt UInt32.toNat_inj.mp h
  rw [UInt32.lt_iff_toNat_lt]
  show start.toNat < 32
  omega

end Steps

/-- **No step of reading is undefined**, and without an error it reads the field. -/
theorem checkedRead_eq (start stop word : UInt32) :
    checkedRead start stop word =
      some ((ofBounds start.toNat stop.toNat).map fun r => r.read word) := by
  apply afterBounds_eq
  intro r hstart hstop
  rw [checkedMask_eq hstart hstop, read, hstart, hstop, UInt32.ofNat_toNat]
  show (if start = stop then some 0 else _) = _
  by_cases h : start = stop
  · rw [if_pos h, if_pos (congrArg UInt32.toNat h)]
  · rw [if_neg h, if_neg (mt UInt32.toNat_inj.mp h), Word.checkedShiftRight,
      if_pos (start_lt_of_ne hstart hstop h)]
    rfl

/-- **No step of writing is undefined**, and without an error it writes the field. -/
theorem checkedWrite_eq (start stop word value : UInt32) :
    checkedWrite start stop word value =
      some ((ofBounds start.toNat stop.toNat).map fun r => r.write word value) := by
  apply afterBounds_eq
  intro r hstart hstop
  rw [checkedMask_eq hstart hstop, write, hstart, hstop, UInt32.ofNat_toNat]
  show (if start = stop then some word else _) = _
  by_cases h : start = stop
  · rw [if_pos h, if_pos (congrArg UInt32.toNat h)]
  · rw [if_neg h, if_neg (mt UInt32.toNat_inj.mp h), Word.checkedShiftLeft,
      Word.checkedShiftLeft, if_pos (start_lt_of_ne hstart hstop h),
      if_pos (start_lt_of_ne hstart hstop h)]
    rfl

end BitRange

/-! ## Signs -/

/-- The extension of a sign, by a shift up and one down. -/
def checkedSignExtend (bits word : UInt32) : Option (Except FieldError Int32) :=
  if 1 ≤ bits ∧ bits ≤ 32 then do
    let amount ← Word.checkedSub 32 bits
    let raised ← Word.checkedShiftLeft word amount
    return .ok (← Word.checkedShiftRightSigned raised.toInt32 amount)
  else some (.error .signPosition)

/-- **An extended sign is the only integer** between the bounds of its width that is congruent
to the word. -/
theorem eq_toInt_signExtend_iff {width : SignWidth} {word : UInt32} {z : Int} :
    z = (signExtend width word).toInt ↔
      -2 ^ (width.bits - 1) ≤ z ∧ z < 2 ^ (width.bits - 1) ∧
        z ≡ word.toNat [ZMOD 2 ^ width.bits] := by
  have hpow : ((2 ^ width.bits : Nat) : Int) = 2 ^ width.bits := by push_cast; rfl
  have hvalue : (signExtend width word).toInt = (word.toNat : Int).bmod (2 ^ width.bits) := by
    rw [toInt_signExtend, BitVec.toInt_setWidth]
    rfl
  constructor
  · intro h
    have hclass : z ≡ word.toNat [ZMOD 2 ^ width.bits] := by
      rw [h, hvalue, Int.ModEq, ← hpow, Int.bmod_emod]
    rw [toInt_signExtend] at h
    rw [h] at hclass ⊢
    exact ⟨BitVec.le_toInt _, BitVec.toInt_lt, hclass⟩
  · intro h
    obtain ⟨hlo, hhi, hclass⟩ := h
    rw [hvalue, ← bmod_two_pow_eq width.one_le_bits hlo hhi, ← Int.emod_bmod z, hpow, hclass,
      ← hpow, Int.emod_bmod]

/-- A shift up and one down extend a sign. -/
theorem signExtend_eq_shifts (width : SignWidth) (word : UInt32) {amount : UInt32}
    (hamount : amount.toNat = 32 - width.bits) :
    (word <<< amount).toInt32 >>> amount.toInt32 = signExtend width word := by
  have hlo := width.one_le_bits
  have hhi := width.bits_le_width
  have hlt : amount.toBitVec.toNat < 32 := by
    rw [UInt32.toNat_toBitVec]
    omega
  apply Int32.toBitVec_inj.mp
  rw [Int32.toBitVec_shiftRight]
  show (word <<< amount).toBitVec.sshiftRight' (amount.toBitVec.smod 32) =
    (word.toBitVec.setWidth width.bits).signExtend 32
  rw [Word.smod_width hlt, UInt32.toBitVec_shiftLeft, Word.umod_width hlt,
    BitVec.shiftLeft_eq', BitVec.sshiftRight_eq', UInt32.toNat_toBitVec, hamount,
    Word.sshiftRight_shiftLeft hlo hhi]

/-- **No step of extending a sign is undefined**, and without an error it extends it. -/
theorem checkedSignExtend_eq (bits word : UInt32) :
    checkedSignExtend bits word =
      some ((SignWidth.ofBits bits.toNat).map fun width => signExtend width word) := by
  have hbits : (1 ≤ bits ∧ bits ≤ 32) ↔ 1 ≤ bits.toNat ∧ bits.toNat ≤ 32 := by
    rw [UInt32.le_iff_toNat_le, UInt32.le_iff_toNat_le]
    rfl
  rw [checkedSignExtend, SignWidth.ofBits]
  by_cases h : 1 ≤ bits ∧ bits ≤ 32
  · have hrange := hbits.mp h
    have hvalue : (32 - bits).toNat = 32 - bits.toNat := UInt32.toNat_sub_of_le _ _ h.2
    have hamount : 32 - bits < 32 := by
      rw [UInt32.lt_iff_toNat_lt, hvalue]
      show 32 - bits.toNat < 32
      omega
    have hsub : Word.checkedSub 32 bits = some (32 - bits) := if_pos h.2
    have hraised : Word.checkedShiftLeft word (32 - bits) = some (word <<< (32 - bits)) :=
      if_pos hamount
    have hextended : Word.checkedShiftRightSigned (word <<< (32 - bits)).toInt32 (32 - bits) =
        some (signExtend ⟨bits.toNat, hrange.1, hrange.2⟩ word) := by
      rw [Word.checkedShiftRightSigned, if_pos hamount, ← signExtend_eq_shifts _ word hvalue]
    rw [if_pos h, dif_pos hrange, hsub]
    simp only [Option.bind_eq_bind, Option.bind_some, hraised, hextended]
    rfl
  · rw [if_neg h, dif_neg (mt hbits.mpr h)]
    rfl

/-! ## Main result -/

/-- **Fields form a lens.**  A written word has the new bits in the range and its old bits
elsewhere, and a field that is read is a quotient and a remainder.  So what was written is
read back as far as it fits, writing back what was read changes nothing, and of two writes
to one range the second counts.  Writes to ranges that share no bit may be done in either
order, and neither disturbs the field of the other.

Bounds are refused when they leave the word or are reversed, and only then.  Carried out
from bounds with every difference and shift checked, reading and writing never come to a
step that is undefined.  Nor does extending a sign, which gives the only integer between
the bounds of the width that is congruent to the word. -/
theorem fields_form_lens :
    (∀ (r : BitRange) (w v : UInt32),
      (∀ k, (r.write w v).toNat.testBit k =
        if r.start ≤ k ∧ k < r.stop then v.toNat.testBit (k - r.start) else w.toNat.testBit k) ∧
      (r.read w).toNat = w.toNat / 2 ^ r.start % 2 ^ (r.stop - r.start) ∧
      (r.read (r.write w v)).toNat = v.toNat % 2 ^ (r.stop - r.start) ∧
      r.write w (r.read w) = w ∧
      (∀ v', r.write (r.write w v) v' = r.write w v') ∧
      ∀ s : BitRange, r.Apart s →
        s.read (r.write w v) = s.read w ∧
        ∀ v', s.write (r.write w v) v' = r.write (s.write w v') v) ∧
    (∀ start stop : UInt32,
      ((∃ e, BitRange.ofBounds start.toNat stop.toNat = .error e) ↔ 32 < stop ∨ stop < start) ∧
      (∀ r, BitRange.ofBounds start.toNat stop.toNat = .ok r ↔
        r.start = start.toNat ∧ r.stop = stop.toNat) ∧
      (∀ w, BitRange.checkedRead start stop w =
        some ((BitRange.ofBounds start.toNat stop.toNat).map fun r => r.read w)) ∧
      ∀ w v, BitRange.checkedWrite start stop w v =
        some ((BitRange.ofBounds start.toNat stop.toNat).map fun r => r.write w v)) ∧
    (∀ (width : SignWidth) (w : UInt32) (z : Int),
      z = (signExtend width w).toInt ↔
        -2 ^ (width.bits - 1) ≤ z ∧ z < 2 ^ (width.bits - 1) ∧
          z ≡ w.toNat [ZMOD 2 ^ width.bits]) ∧
    ∀ bits w : UInt32, checkedSignExtend bits w =
      some ((SignWidth.ofBits bits.toNat).map fun width => signExtend width w) := by
  refine ⟨fun r w v => ⟨r.testBit_write w v, r.toNat_read w, r.toNat_read_write w v,
      r.write_read w, r.write_write w v, fun s hapart => ?_⟩,
    fun start stop => ⟨?_, fun r => BitRange.ofBounds_eq_ok_iff,
      BitRange.checkedRead_eq start stop, BitRange.checkedWrite_eq start stop⟩,
    fun width w z => eq_toInt_signExtend_iff, checkedSignExtend_eq⟩
  · exact ⟨r.read_write_of_apart w v hapart, r.write_comm_of_apart w v hapart⟩
  · rw [BitRange.ofBounds_eq_error_iff, UInt32.lt_iff_toNat_lt, UInt32.lt_iff_toNat_lt]
    rfl

/-- The highest byte of a word and its lower half. -/
theorem fields_form_lens_apart :
    (BitRange.mk 24 32).Apart (.mk 0 16) ∧
      (BitRange.mk 0 16).write ((BitRange.mk 24 32).write 0x89ABCDEF 0x1FF) 0x1234 =
        0xFFAB1234 := by
  have hapart : (BitRange.mk 24 32).Apart (.mk 0 16) := BitRange.apart_of_le (.inr (by decide))
  refine ⟨hapart, ?_⟩
  have hlaws := (fields_form_lens.1 (.mk 24 32) 0x89ABCDEF 0x1FF).2.2.2.2.2 (.mk 0 16) hapart
  rw [hlaws.2 0x1234]
  decide

end SandboxCpu
