import SandboxCpu.Toml.DateTime
import SandboxCpu.Toml.Quotation
import SandboxCpu.Toml.Table
/-!
# Keys and values as text

A key is a row of names with points between them. A value is a scalar, an array or a table between
braces. Arrays and tables may stand in each other up to a fixed depth, along which `value` recurs;
the items of one array and the members of one table are counted by the length of the text.
-/

namespace SandboxCpu.Toml

/-- Whether a name may hold a character without being quoted. -/
def isNameChar (c : Char) : Bool := c.isAlphanum || c == '_' || c == '-'

/-- Reads a single name. -/
def name (cs : List Char) : Option (String × List Char) :=
  match cs.takeWhile isNameChar with
  | [] => oneLineString cs
  | bare => some (String.ofList bare, cs.drop bare.length)

/-- Reads a key of at most `count` names, after which spaces are dropped. -/
def key : (count : Nat) → List Char → Option (List String × List Char)
  | 0, _ => none
  | count + 1, cs => do
    let (first, rest) ← name (skipSpace cs)
    match skipSpace rest with
    | '.' :: rest =>
      let (others, rest) ← key count rest
      return (first :: others, rest)
    | rest => return ([first], rest)

/-- How many names a key may have. -/
def greatestKeyLength : Nat := 80

/-- Reads a key. -/
def dottedKey (cs : List Char) : Option (List String × List Char) := key greatestKeyLength cs

/-- Whether a character may belong to a scalar without quotes: any but a space, the end of a line and
the marks that part values from each other. -/
def isScalarChar (c : Char) : Bool :=
  !(isSpace c || ['\n', '#', '=', ',', '[', ']', '\x7b', '\x7d'].contains c)

/-- Whether a text goes on with a word: neither with a point nor with a quote. -/
def startsWord (cs : List Char) : Bool :=
  cs.head?.any fun c => isScalarChar c && !(['.', '"', '\''].contains c)

/-- The scalar without quotes at the start of a text. Spaces belong to it if a word follows them, as a
time may follow a date. -/
def scalarLexeme : List Char → List Char
  | [] => []
  | c :: cs =>
    if isScalarChar c || (isSpace c && startsWord (skipSpace cs)) then c :: scalarLexeme cs else []

/-- The value of a scalar without quotes. -/
def scalar? (lexeme : List Char) : Option Value :=
  if lexeme = ['t', 'r', 'u', 'e'] then some (.boolean true)
  else if lexeme = ['f', 'a', 'l', 's', 'e'] then some (.boolean false)
  else if isDateTime lexeme then some (.dateTime (String.ofList lexeme))
  else (numeral? lexeme).map .number

/-- Reads a scalar. -/
def scalar : List Char → Option (Value × List Char)
  | cs@('"' :: _) | cs@('\'' :: _) => do
    let (text, rest) ← quotation cs
    return (.string text, rest)
  | cs => do
    let lexeme := scalarLexeme cs
    return (← scalar? lexeme, cs.drop lexeme.length)

/-- Reads at most `count` items up to the closing bracket. -/
def items (item : List Char → Option (Value × List Char)) :
    (count : Nat) → List Char → Option (List Value × List Char)
  | 0, _ => none
  | count + 1, cs =>
    match skipGaps cs with
    | ']' :: rest => some ([], rest)
    | cs => do
      let (first, rest) ← item cs
      match skipGaps rest with
      | ',' :: rest =>
        let (others, rest) ← items item count rest
        return (first :: others, rest)
      | ']' :: rest => return ([first], rest)
      | _ => none

/-- Reads a key, an equals sign and a value. What may stand around the equals sign is dropped by
`skip`. -/
def assignment (skip : List Char → List Char) (item : List Char → Option (Value × List Char))
    (cs : List Char) : Option (List String × Value × List Char) := do
  let (path, rest) ← dottedKey cs
  match skip rest with
  | '=' :: rest =>
    let (value, rest) ← item (skip rest)
    return (path, value, rest)
  | _ => none

/-- Reads at most `count` members onto former ones, up to the closing brace. Lines may end anywhere
between the parts of a member, except within its key. -/
def members (item : List Char → Option (Value × List Char)) :
    (count : Nat) → Members → List Char → Option (Members × List Char)
  | 0, _, _ => none
  | count + 1, former, cs =>
    match skipGaps cs with
    | '\x7d' :: rest => some (former, rest)
    | cs => do
      let (path, value, rest) ← assignment skipGaps item cs
      let former ← former.assign value path
      match skipGaps rest with
      | ',' :: rest => members item count former rest
      | '\x7d' :: rest => return (former, rest)
      | _ => none

/-- Reads a value, in which arrays and tables stand at most `depth` deep. -/
def value : (depth : Nat) → List Char → Option (Value × List Char)
  | depth + 1, '[' :: cs => do
    let (items, rest) ← items (value depth) (cs.length + 1) cs
    return (.array items, rest)
  | depth + 1, '\x7b' :: cs => do
    let (members, rest) ← members (value depth) (cs.length + 1) [] cs
    return (.table .inline members, rest)
  | _, cs => scalar cs

end SandboxCpu.Toml
