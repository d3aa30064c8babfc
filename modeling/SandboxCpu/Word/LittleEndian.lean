/-!
# Words as bytes

A word is kept in memory as four bytes, the least significant first.

`word_bytes` and `bytes_word` say that taking a word apart and putting it together undo each other.
-/

namespace SandboxCpu.LittleEndian

/-- The four bytes of a word, least significant first. -/
def bytes (w : UInt32) : List UInt8 :=
  [w.toUInt8, (w >>> 8).toUInt8, (w >>> 16).toUInt8, (w >>> 24).toUInt8]

/-- The word with the given bytes, least significant first. -/
def word (b₀ b₁ b₂ b₃ : UInt8) : UInt32 :=
  b₀.toUInt32 + b₁.toUInt32 * 256 + b₂.toUInt32 * 65536 + b₃.toUInt32 * 16777216

/-- The bytes of a list of words, one word after the other. -/
def image (words : List UInt32) : List UInt8 := words.flatMap bytes

/-- The words of a byte string. Up to three bytes left over at the end make no word. -/
def words : List UInt8 → List UInt32
  | b₀ :: b₁ :: b₂ :: b₃ :: rest => word b₀ b₁ b₂ b₃ :: words rest
  | _ => []

@[simp] theorem length_bytes (w : UInt32) : (bytes w).length = 4 := rfl

theorem word_bytes (w : UInt32) :
    word w.toUInt8 (w >>> 8).toUInt8 (w >>> 16).toUInt8 (w >>> 24).toUInt8 = w := by
  apply UInt32.toNat_inj.mp
  have h := w.toNat_lt
  simp only [word, UInt32.toNat_add, UInt32.toNat_mul, UInt8.toNat_toUInt32, UInt32.toNat_toUInt8,
    UInt32.toNat_shiftRight, UInt32.toNat_ofNat, Nat.shiftRight_eq_div_pow]
  simp only [Nat.reduceMod, Nat.reducePow] at *
  omega

theorem bytes_word (b₀ b₁ b₂ b₃ : UInt8) : bytes (word b₀ b₁ b₂ b₃) = [b₀, b₁, b₂, b₃] := by
  have h₀ := b₀.toNat_lt
  have h₁ := b₁.toNat_lt
  have h₂ := b₂.toNat_lt
  have h₃ := b₃.toNat_lt
  simp only [bytes, List.cons.injEq, and_true]
  refine ⟨?_, ?_, ?_, ?_⟩ <;> apply UInt8.toNat_inj.mp <;>
    simp only [word, UInt32.toNat_add, UInt32.toNat_mul, UInt8.toNat_toUInt32, UInt32.toNat_toUInt8,
      UInt32.toNat_shiftRight, UInt32.toNat_ofNat, Nat.shiftRight_eq_div_pow] <;>
    simp only [Nat.reduceMod, Nat.reducePow] at * <;> omega

@[simp] theorem words_image (ws : List UInt32) : words (image ws) = ws := by
  induction ws with
  | nil => rfl
  | cons w ws ih =>
    show words (bytes w ++ image ws) = w :: ws
    simp [bytes, words, word_bytes, ih]

end SandboxCpu.LittleEndian
