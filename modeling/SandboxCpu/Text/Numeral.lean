import SandboxCpu.Text.Hex
/-!
# Reading unsigned numerals

A numeral is an optional plus sign and one or more digits of its radix. Digits are taken from left to
right, and the first difficulty is the one reported: a character that is no digit, or a value above
the greatest one allowed.
-/

namespace SandboxCpu.Text

/-- Why a text is not a numeral. -/
inductive NumeralError
  /-- There is nothing to read. -/
  | empty
  /-- A character is not a digit of the radix. -/
  | invalidDigit
  /-- The value is above the greatest one allowed. -/
  | tooLarge
  deriving DecidableEq, Repr

/-- The wording of a numeral error. -/
def NumeralError.message : NumeralError → String
  | empty => "cannot parse integer from empty string"
  | invalidDigit => "invalid digit found in string"
  | tooLarge => "number too large to fit in target type"

/-- The value of a digit below `radix`, for a radix up to sixteen. -/
def digitValue? (radix : Nat) (c : Char) : Option Nat :=
  (hexValue? c).filter (· < radix)

/-- Reads digits onto a value, up to `greatest`. -/
def numeralDigits (radix greatest : Nat) : Nat → List Char → Except NumeralError Nat
  | value, [] => .ok value
  | value, c :: cs =>
    match digitValue? radix c with
    | none => .error .invalidDigit
    | some d =>
      let next := value * radix + d
      if greatest < next then .error .tooLarge else numeralDigits radix greatest next cs

/-- Reads a numeral with an optional plus sign. A sign alone has no digit. -/
def numeral (radix greatest : Nat) : List Char → Except NumeralError Nat
  | [] => .error .empty
  | ['+'] => .error .invalidDigit
  | '+' :: cs => numeralDigits radix greatest 0 cs
  | cs => numeralDigits radix greatest 0 cs

/-- Reads a 32-bit numeral. -/
def numeral32 (radix : Nat) (cs : List Char) : Except NumeralError UInt32 :=
  UInt32.ofNat <$> numeral radix 0xFFFFFFFF cs

/-- Reads a 32-bit numeral that is hexadecimal after a radix mark and decimal without one. -/
def markedNumeral32 : List Char → Except NumeralError UInt32
  | '0' :: 'x' :: cs | '0' :: 'X' :: cs => numeral32 16 cs
  | cs => numeral32 10 cs

/-- Reads a 64-bit numeral. -/
def numeral64 (radix : Nat) (cs : List Char) : Except NumeralError UInt64 :=
  UInt64.ofNat <$> numeral radix 0xFFFFFFFFFFFFFFFF cs

end SandboxCpu.Text
