/-!
# Fields of a 32-bit word

A *bit range* names bits `start, …, stop - 1` of a word, bit `0` being the least significant. Its
bounds are checked once, when the range is made, so reading and writing a field never fail.

## Main definitions

* `BitRange` and `BitRange.ofBounds`, which refuses bounds that leave the word or are reversed;
* `BitRange.read` and `BitRange.write`, the field of a word and the word with another field;
* `signExtend`, the low bits of a word read as a two's complement number.
-/

namespace SandboxCpu

/-- Why bounds do not describe a field. -/
inductive FieldError
  /-- The range ends above bit 31. -/
  | endOutOfBounds
  /-- The range ends before it starts. -/
  | reversed
  /-- A sign bit was asked for outside bits 0 to 31. -/
  | signPosition
  deriving DecidableEq, Repr

namespace FieldError

/-- The wording of a field error. -/
def message : FieldError → String
  | endOutOfBounds => "Bit range end out of bounds"
  | reversed => "Invalid bit range"
  | signPosition => "Invalid sign bit position"

end FieldError

/-- Bits `start, …, stop - 1` of a 32-bit word; none when the bounds coincide. -/
structure BitRange where
  /-- The lowest bit of the field. -/
  start : Nat
  /-- The bit just above the field. -/
  stop : Nat
  start_le_stop : start ≤ stop := by decide
  stop_le_width : stop ≤ 32 := by decide
  deriving DecidableEq, Repr

namespace BitRange

/-- The range with the given bounds. An end above the word is reported before reversed bounds. -/
def ofBounds (start stop : Nat) : Except FieldError BitRange :=
  if h : 32 < stop then .error .endOutOfBounds
  else if h' : stop < start then .error .reversed
  else .ok ⟨start, stop, by omega, by omega⟩

/-- Number of bits in the field. -/
def width (r : BitRange) : Nat := r.stop - r.start

/-- A word whose low `width` bits are ones. -/
def mask (r : BitRange) : UInt32 :=
  if r.width = 32 then 0xFFFFFFFF else ((1 : UInt32) <<< UInt32.ofNat r.width) - 1

/-- The field's bits, moved down to bit 0. An empty field reads as zero. -/
def read (r : BitRange) (word : UInt32) : UInt32 :=
  if r.start = r.stop then 0 else (word >>> UInt32.ofNat r.start) &&& r.mask

/-- The word with the field replaced by the low bits of `value`; bits that do not fit are dropped. -/
def write (r : BitRange) (word value : UInt32) : UInt32 :=
  if r.start = r.stop then word
  else
    (word &&& ~~~(r.mask <<< UInt32.ofNat r.start)) |||
      ((value &&& r.mask) <<< UInt32.ofNat r.start)

theorem ofBounds_eq_ok_iff {start stop : Nat} {r : BitRange} :
    ofBounds start stop = .ok r ↔ r.start = start ∧ r.stop = stop := by
  have h₁ := r.start_le_stop
  have h₂ := r.stop_le_width
  unfold ofBounds
  split
  · simp only [reduceCtorEq, false_iff]; omega
  · split
    · simp only [reduceCtorEq, false_iff]; omega
    · rcases r with ⟨a, b, _, _⟩
      simp only [Except.ok.injEq, mk.injEq]
      constructor <;> rintro ⟨rfl, rfl⟩ <;> exact ⟨rfl, rfl⟩

end BitRange

/-- A number of low bits, between 1 and 32, whose highest is a sign bit. -/
structure SignWidth where
  /-- How many bits count. -/
  bits : Nat
  one_le_bits : 1 ≤ bits := by decide
  bits_le_width : bits ≤ 32 := by decide
  deriving DecidableEq, Repr

/-- The sign width of `bits` bits. -/
def SignWidth.ofBits (bits : Nat) : Except FieldError SignWidth :=
  if h : 1 ≤ bits ∧ bits ≤ 32 then .ok ⟨bits, h.1, h.2⟩ else .error .signPosition

/-- The low bits of `word`, read as a two's complement number. Higher bits do not matter. -/
def signExtend (width : SignWidth) (word : UInt32) : Int32 :=
  Int32.ofBitVec ((word.toBitVec.setWidth width.bits).signExtend 32)

theorem toInt_signExtend (width : SignWidth) (word : UInt32) :
    (signExtend width word).toInt = (word.toBitVec.setWidth width.bits).toInt := by
  have h := width.bits_le_width
  show ((word.toBitVec.setWidth width.bits).signExtend 32).toInt = _
  exact BitVec.toInt_signExtend_of_le h

end SandboxCpu
