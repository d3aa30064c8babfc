import SandboxCpu.Text.Hex
import SandboxCpu.Toml.Spacing
/-!
# Strings

A string stands between quotes: one on each side on a single line, or three on each side across lines.
Between double quotes a backslash begins an escape; between single quotes every character stands for
itself. A string is read in two passes: the first finds its end, the second replaces the escapes.
-/

namespace SandboxCpu.Toml

/-- The body of a string on one line, and what comes after its closing quote. -/
def oneLineBody (quote : Char) (escapes : Bool) : List Char → Option (List Char × List Char)
  | [] => none
  | c :: cs =>
    if c = quote then some ([], cs)
    else if !isPlain c then none
    else if escapes && c == '\\' then
      match cs with
      | d :: ds =>
        if isPlain d then (oneLineBody quote escapes ds).map fun r => (c :: d :: r.1, r.2) else none
      | [] => none
    else (oneLineBody quote escapes cs).map fun r => (c :: r.1, r.2)

/-- The body of a string across lines, and what comes after its three closing quotes. One or two
quotes directly before these belong to the body. -/
def multiLineBody (quote : Char) (escapes : Bool) : List Char → Option (List Char × List Char)
  | [] => none
  | c :: cs =>
    if c = quote && cs.take 2 == [quote, quote] then
      let extra := ((cs.drop 2).takeWhile (· == quote)).take 2
      some (extra, cs.drop (2 + extra.length))
    else if !(isPlain c || c == '\n') then none
    else if escapes && c == '\\' then
      match cs with
      | d :: ds =>
        if isPlain d || d == '\n' then
          (multiLineBody quote escapes ds).map fun r => (c :: d :: r.1, r.2)
        else none
      | [] => none
    else (multiLineBody quote escapes cs).map fun r => (c :: r.1, r.2)

/-- The character with a code point in hexadecimal digits. -/
def codePoint (digits : List Char) : Option Char := do
  let n ← digits.foldlM (fun n c => (Text.hexValue? c).map (16 * n + ·)) 0
  if n.isValidChar then some (Char.ofNat n) else none

/-- The character that a letter after a backslash means. -/
def escapeLetter? : Char → Option Char
  | 'b' => some '\x08'
  | 't' => some '\t'
  | 'n' => some '\n'
  | 'f' => some '\x0c'
  | 'r' => some '\r'
  | 'e' => some '\x1b'
  | '"' => some '"'
  | '\\' => some '\\'
  | _ => none

/-- Whether only spaces come before the end of the line. -/
def atLineEnd (cs : List Char) : Bool := (skipSpace cs).head? == some '\n'

/-- A body with its escapes replaced. A backslash at the end of a line takes away the blanks up to the
next visible character; `trimming` says that this is going on. -/
def unescape : (trimming : Bool) → List Char → Option (List Char)
  | _, [] => some []
  | _, '\\' :: 'x' :: a :: b :: cs => do
    return (← codePoint [a, b]) :: (← unescape false cs)
  | _, '\\' :: 'u' :: a :: b :: c :: d :: cs => do
    return (← codePoint [a, b, c, d]) :: (← unescape false cs)
  | _, '\\' :: 'U' :: a :: b :: c :: d :: e :: f :: g :: h :: cs => do
    return (← codePoint [a, b, c, d, e, f, g, h]) :: (← unescape false cs)
  | _, '\\' :: c :: cs =>
    match escapeLetter? c with
    | some d => (unescape false cs).map (d :: ·)
    | none => if atLineEnd (c :: cs) then unescape true cs else none
  | trimming, c :: cs =>
    if trimming && (isSpace c || c == '\n') then unescape true cs
    else (unescape false cs).map (c :: ·)

/-- A body without the line end that may follow the three opening quotes. -/
def dropFirstLineEnd : List Char → List Char
  | '\n' :: cs => cs
  | cs => cs

/-- Reads a string on one line: its text, and what comes after it. -/
def oneLineString : List Char → Option (String × List Char)
  | '"' :: cs => do
    let (body, rest) ← oneLineBody '"' true cs
    return (String.ofList (← unescape false body), rest)
  | '\'' :: cs => do
    let (body, rest) ← oneLineBody '\'' false cs
    return (String.ofList body, rest)
  | _ => none

/-- Reads a string of any form: its text, and what comes after it. -/
def quotation : List Char → Option (String × List Char)
  | '"' :: '"' :: '"' :: cs => do
    let (body, rest) ← multiLineBody '"' true (dropFirstLineEnd cs)
    return (String.ofList (← unescape false body), rest)
  | '\'' :: '\'' :: '\'' :: cs => do
    let (body, rest) ← multiLineBody '\'' false (dropFirstLineEnd cs)
    return (String.ofList body, rest)
  | cs => oneLineString cs

end SandboxCpu.Toml
