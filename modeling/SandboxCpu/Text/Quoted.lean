import SandboxCpu.Text.Hex
import SandboxCpu.Text.Unprintable
/-!
# Quoted text

Text shown between quotes, for messages that name what they reject. A backslash, the common control
characters and the enclosing quote are written with a backslash; a character that would not be seen,
or would join the quote before it, is written by its code point; all others stand for themselves.
-/

namespace SandboxCpu.Text

/-- The written form of a character between quotes. -/
def escaped (quote : Char) (c : Char) : List Char :=
  match c with
  | '\x00' => ['\\', '0']
  | '\t' => ['\\', 't']
  | '\n' => ['\\', 'n']
  | '\r' => ['\\', 'r']
  | '\\' => ['\\', '\\']
  | c =>
    if c = quote then ['\\', c]
    else if extendsGrapheme c || isUnprintable c then
      ['\\', 'u', '\x7b'] ++ Nat.toDigits 16 c.toNat ++ ['\x7d']
    else [c]

/-- A text between double quotes. -/
def quoted (s : String) : String :=
  String.ofList (['"'] ++ s.toList.flatMap (escaped '"') ++ ['"'])

/-- A single character between single quotes. -/
def quotedChar (c : Char) : String :=
  String.ofList (['\''] ++ escaped '\'' c ++ ['\''])

end SandboxCpu.Text
