import SandboxCpu.Toml.Expression
/-!
# Documents

A document is a list of lines: assignments, headers that say which table the assignments after them
belong to, and lines without content. Reading one either succeeds or does not; where and why it fails
is not said.
-/

namespace SandboxCpu.Toml

/-- How deep arrays and tables may stand in each other. -/
def greatestDepth : Nat := 80

/-- Cuts off a closing bracket. -/
def closeBracket : List Char → Option (List Char)
  | ']' :: cs => some cs
  | _ => none

/-- Opens the table at the end of a path in the way that its header asks for. -/
def openAt (opening : String → Members → Option Members) (path : List String) (root : Members) :
    Option Members :=
  match path.getLast? with
  | some last => root.within (opening last) path.dropLast
  | none => none

/-- Reads at most `count` lines with content onto a document, under the header with path `header`. -/
def statements : (count : Nat) → (header : List String) → Members → List Char → Option Members
  | 0, _, _, _ => none
  | count + 1, header, root, cs =>
    match skipGaps cs with
    | [] => some root
    | '[' :: '[' :: cs => do
      let (path, rest) ← dottedKey cs
      let rest ← closeBracket (← closeBracket rest)
      statements count path (← openAt Members.openNext path root) (← afterLine rest)
    | '[' :: cs => do
      let (path, rest) ← dottedKey cs
      let rest ← closeBracket rest
      statements count path (← openAt Members.openTable path root) (← afterLine rest)
    | cs => do
      let (path, value, rest) ← assignment skipSpace (value greatestDepth) cs
      statements count header (← root.within (Members.assign value path) header) (← afterLine rest)

/-- Drops the mark that may tell the encoding of a text at its start. -/
def dropByteOrderMark : List Char → List Char
  | '\ufeff' :: cs => cs
  | cs => cs

/-- The members of a document. -/
def parse (text : String) : Option Members := do
  let cs ← unifyLineEnds (dropByteOrderMark text.toList)
  statements (cs.length + 1) [] [] cs

end SandboxCpu.Toml
