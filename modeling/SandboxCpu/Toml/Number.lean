import SandboxCpu.Text.Numeral
/-!
# Numbers

A whole number is decimal with an optional sign, or hexadecimal, octal or binary after a radix mark.
A decimal number begins with a zero only if that is all of it. An underscore stands between two
digits.

A number is looked at twice. Its form is checked when it is read (`numeral?`), and what is not settled
by then is settled when its value is asked for (`Numeral.integer?`, `Numeral.hasValue`): whether there
are digits after a radix mark, whether what stands between the underscores of a decimal number are
digits, and whether the value is within its limits. So a number that nobody asks for may fail there.
-/

namespace SandboxCpu.Toml

/-- A number by its form, without its underscores. -/
inductive Numeral
  /-- A whole number: its digits in a radix, with its sign in front. -/
  | whole (radix : Nat) (text : List Char)
  /-- A number with a fraction or an exponent, an infinity, or not a number. -/
  | fraction (text : List Char)
  deriving DecidableEq, Repr

/-- Cuts off a sign; whether it was a minus. -/
def splitSign : List Char → Bool × List Char
  | '+' :: cs => (false, cs)
  | '-' :: cs => (true, cs)
  | cs => (false, cs)

/-- Whether a digit stands before and after each underscore. Whether one stands before the first
character is said by `afterDigit`. -/
def underscoresFit (isDigit : Char → Bool) : (afterDigit : Bool) → List Char → Bool
  | _, [] => true
  | afterDigit, '_' :: cs => afterDigit && cs.head?.any isDigit && underscoresFit isDigit false cs
  | _, c :: cs => underscoresFit isDigit (isDigit c) cs

/-- A text without its underscores. -/
def dropUnderscores (cs : List Char) : List Char := cs.filter (· != '_')

/-- Whether a character is a digit of a radix. -/
def isDigitOf (radix : Nat) (c : Char) : Bool := (Text.digitValue? radix c).isSome

/-- A whole number from the part after its radix mark. -/
def markedNumeral (radix : Nat) (cs : List Char) : Option Numeral :=
  if cs.all (fun c => isDigitOf radix c || c == '_') && underscoresFit (isDigitOf radix) false cs then
    some (.whole radix (dropUnderscores cs))
  else none

/-- What comes after a row of decimal digits and underscores, in which there must be a digit. Unless
`zeroLeads`, a zero in front must be the only digit. -/
def afterDigits (zeroLeads : Bool) (cs : List Char) : Option (List Char) :=
  let digits := cs.takeWhile fun c => c.isDigit || c == '_'
  let count := digits.countP Char.isDigit
  if count = 0 ∨ (!zeroLeads ∧ 1 < count ∧ digits.head? = some '0') then none
  else some (cs.drop digits.length)

/-- What comes after a point and digits, if there is a point. -/
def afterPoint : List Char → Option (List Char)
  | '.' :: cs => afterDigits true cs
  | cs => some cs

/-- What comes after an exponent, if there is one. -/
def afterExponent : List Char → Option (List Char)
  | 'e' :: cs | 'E' :: cs => afterDigits true (splitSign cs).2
  | cs => some cs

/-- Whether a text without a sign has digits, then possibly a point and digits, then possibly an
exponent, and nothing more. -/
def hasFractionForm (cs : List Char) : Bool :=
  ((afterDigits false cs).bind afterPoint |>.bind afterExponent) == some []

/-- A decimal number. With an underscore after its first digits, and neither a point nor an `e`, it is
taken for a whole number without a look at what else it holds, if that is no space. -/
def decimalNumeral (cs : List Char) : Option Numeral :=
  let magnitude := (splitSign cs).2
  let rest := magnitude.dropWhile Char.isDigit
  let zeroLeads := magnitude.head? = some '0'
  if rest = [] then
    if magnitude = [] ∨ (zeroLeads ∧ magnitude ≠ ['0']) then none else some (.whole 10 cs)
  else if rest.any fun c => c == '.' || c == 'e' || c == 'E' then
    if hasFractionForm magnitude && underscoresFit (isDigitOf 10) false magnitude then
      some (.fraction (dropUnderscores cs))
    else none
  else if rest.head? = some '_' ∧ ' ' ∉ rest ∧ ¬ zeroLeads ∧
      underscoresFit (isDigitOf 16) false magnitude then
    some (.whole 10 (dropUnderscores cs))
  else none

/-- Whether a text is an infinity or not a number, with or without a sign. -/
def isSpecial (cs : List Char) : Bool :=
  let magnitude := (splitSign cs).2
  magnitude == ['i', 'n', 'f'] || magnitude == ['n', 'a', 'n']

/-- Reads a number, as far as its form goes. -/
def numeral? : List Char → Option Numeral
  | '0' :: 'x' :: cs => markedNumeral 16 cs
  | '0' :: 'o' :: cs => markedNumeral 8 cs
  | '0' :: 'b' :: cs => markedNumeral 2 cs
  | cs => if isSpecial cs then some (.fraction cs) else decimalNumeral cs

/-- The value of a text that consists of digits, of which there must be one. -/
def digitsValue? (radix : Nat) : List Char → Option Nat
  | [] => none
  | cs => cs.foldlM (fun n c => (Text.digitValue? radix c).map (radix * n + ·)) 0

/-- The least magnitude that is rounded to infinity in 64-bit binary floating point. -/
def floatLimit : Nat := Nat.pow 2 1024 - Nat.pow 2 970

/-- Whether `n · 10 ^ exponent` is below the limit of floating point. The place of the leading digit
decides in all but one case. -/
def fitsFloat (n : Nat) (exponent : Int) : Bool :=
  let leading : Int := (Nat.toDigits 10 n).length + exponent
  if n = 0 ∨ leading < 309 then true
  else if 309 < leading then false
  else if 0 ≤ exponent then n * Nat.pow 10 exponent.toNat < floatLimit
  else n < floatLimit * Nat.pow 10 (-exponent).toNat

/-- The digits of a number with a fraction, a point being left out, and the power of ten by which they
are to be multiplied. -/
def scaledDigits (cs : List Char) : List Char × Int :=
  let mantissa := cs.takeWhile fun c => c != 'e' && c != 'E'
  let (negative, exponent) := splitSign (cs.drop (mantissa.length + 1))
  let exponent : Int := (digitsValue? 10 exponent).getD 0
  let places := ((mantissa.dropWhile (· != '.')).drop 1).length
  (mantissa.filter (· != '.'), (if negative then -exponent else exponent) - places)

namespace Numeral

/-- The value of a whole number, which has to fit into 128 bits with or without a sign. -/
def integer? : Numeral → Option Int
  | whole radix text => do
    let (negative, digits) := splitSign text
    let n : Int ← digitsValue? radix digits
    let n := if negative then -n else n
    if -0x80000000000000000000000000000000 ≤ n ∧ n < 0x100000000000000000000000000000000 then some n
    else none
  | fraction _ => none

/-- Whether a number has a value within its limits. -/
def hasValue : Numeral → Bool
  | n@(whole ..) => n.integer?.isSome
  | fraction text =>
    isSpecial text ||
      let (digits, exponent) := scaledDigits (splitSign text).2
      (digitsValue? 10 digits).any (fitsFloat · exponent)

end Numeral

end SandboxCpu.Toml
