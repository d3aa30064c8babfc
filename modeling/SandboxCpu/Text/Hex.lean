/-!
# Hexadecimal text

Numbers and bytes as lower-case hexadecimal digits, and the digits of either case read back. Each
written form has one function, so that its width is stated in one place.
-/

namespace SandboxCpu.Text

/-- The hexadecimal digits of `n`, with zeros in front up to `width` digits. A longer number keeps
all its digits. -/
def hexDigits (width n : Nat) : List Char :=
  let digits := Nat.toDigits 16 n
  List.replicate (width - digits.length) '0' ++ digits

/-- `hexDigits` as a string. -/
def hex (width n : Nat) : String := String.ofList (hexDigits width n)

/-- `hexDigits` after the radix mark `0x`. -/
def hex0x (width n : Nat) : String := "0x" ++ hex width n

/-- A machine address: the radix mark and at least four digits. -/
def address (a : UInt32) : String := hex0x 4 a.toNat

/-- A machine word: the radix mark and eight digits. -/
def word (w : UInt32) : String := hex0x 8 w.toNat

/-- Two digits for each byte, in order. -/
def bytesHex (bytes : List UInt8) : String :=
  String.ofList (bytes.flatMap fun b => hexDigits 2 b.toNat)

/-- The value of a hexadecimal digit of either case. -/
def hexValue? (c : Char) : Option Nat :=
  if '0' ≤ c ∧ c ≤ '9' then some (c.toNat - '0'.toNat)
  else if 'a' ≤ c ∧ c ≤ 'f' then some (c.toNat - 'a'.toNat + 10)
  else if 'A' ≤ c ∧ c ≤ 'F' then some (c.toNat - 'A'.toNat + 10)
  else none

theorem hexValue?_lt {c : Char} {v : Nat} (h : hexValue? c = some v) : v < 16 := by
  unfold hexValue? at h
  split at h
  · rename_i hc
    have : c.toNat ≤ '9'.toNat := hc.2
    simp only [Option.some.injEq, Char.reduceToNat] at h this
    omega
  · split at h
    · rename_i hc
      have : c.toNat ≤ 'f'.toNat := hc.2
      simp only [Option.some.injEq, Char.reduceToNat] at h this
      omega
    · split at h
      · rename_i hc
        have : c.toNat ≤ 'F'.toNat := hc.2
        simp only [Option.some.injEq, Char.reduceToNat] at h this
        omega
      · simp at h

end SandboxCpu.Text
