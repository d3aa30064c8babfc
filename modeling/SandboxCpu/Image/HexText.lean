import SandboxCpu.Text.Blank
import SandboxCpu.Text.Hex
import SandboxCpu.Text.Quoted
import SandboxCpu.Word.LittleEndian

/-!
# Program images as hexadecimal text

A program image may be written as text: tokens of hexadecimal digits between white space, with a
comment from `#` to the end of each line. A token may begin with any number of radix marks `0x`, which
say nothing. Its digits are bytes in order, except that a token of eight digits is an instruction word,
written with its most significant digit first and stored with its least significant byte first.

A token is read as bytes of UTF-8, and its digits may be decoded by any `Decoder`. The one that is used
unless another is named is `digits`: an odd number of bytes is reported before any of them is looked at;
a byte that is no digit is reported with its place in the token.
-/

namespace SandboxCpu.HexText

/-- Why a token has no bytes. -/
inductive TokenError
  /-- The number of digits is odd. -/
  | oddLength
  /-- A byte is no hexadecimal digit. -/
  | invalidByte (byte : UInt8) (position : Nat)
  deriving DecidableEq, Repr

/-- The wording of a token error. A byte is shown as the character of its number. -/
def TokenError.message : TokenError → String
  | oddLength => "Odd number of digits"
  | invalidByte byte position =>
    "Invalid character " ++ Text.quotedChar (Char.ofNat byte.toNat) ++ " at position " ++
      toString position

/-- The wording of a token error of a whole image. -/
def TokenError.imageMessage (e : TokenError) : String := "十六进制镜像解析失败: " ++ e.message

/-- What gives the bytes of a token's digits, two digits for each byte. -/
abbrev Decoder := List UInt8 → Except TokenError (List UInt8)

/-- The value of a hexadecimal digit, which stands at a place in its token. -/
def digit (position : Nat) (byte : UInt8) : Except TokenError Nat :=
  match Text.hexValue? (Char.ofNat byte.toNat) with
  | some v => .ok v
  | none => .error (.invalidByte byte position)

/-- The bytes of an even number of digits, the first of which stands at `position`. -/
def pairs (position : Nat) : List UInt8 → Except TokenError (List UInt8)
  | high :: low :: rest => do
    let h ← digit position high
    let l ← digit (position + 1) low
    return UInt8.ofNat (16 * h + l) :: (← pairs (position + 2) rest)
  | _ => .ok []

/-- The bytes of hexadecimal digits in either case. -/
def digits : Decoder := fun token =>
  if token.length % 2 = 1 then .error .oddLength else pairs 0 token

/-- A token without the radix marks in front. -/
def dropMarks : List Char → List Char
  | '0' :: 'x' :: rest => dropMarks rest
  | token => token

/-- The bytes of a token: a word is turned round. -/
def token (cs : List Char) (decode : Decoder := digits) : Except TokenError (List UInt8) := do
  let bytes ← decode ((dropMarks cs).flatMap String.utf8EncodeChar)
  return if bytes.length = 4 then bytes.reverse else bytes

/-- The tokens of a line, up to its comment. -/
def lineTokens (line : List Char) : List (List Char) := Text.tokens (line.takeWhile (· != '#'))

/-- The tokens of a text. -/
def textTokens (text : List Char) : List (List Char) := (text.splitOn '\n').flatMap lineTokens

/-- The image that a text describes: the bytes of its tokens, or the first error. -/
def parse (text : String) (decode : Decoder := digits) : Except TokenError (List UInt8) :=
  List.flatten <$> (textTokens text.toList).mapM fun cs => token cs decode

end SandboxCpu.HexText
