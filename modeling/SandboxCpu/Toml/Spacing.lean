/-!
# Spaces, line ends and comments

What may stand between the parts of a document. A line ends with a line feed, which a carriage return
may precede; `unifyLineEnds` takes these carriage returns away and refuses any other, so the rest of
the grammar knows only one end of a line.
-/

namespace SandboxCpu.Toml

/-- A text whose lines all end with a line feed. A carriage return anywhere else is refused. -/
def unifyLineEnds : List Char → Option (List Char)
  | [] => some []
  | '\r' :: '\n' :: cs => (unifyLineEnds cs).map ('\n' :: ·)
  | '\r' :: _ => none
  | c :: cs => (unifyLineEnds cs).map (c :: ·)

/-- Whether a character is a space within a line. -/
def isSpace (c : Char) : Bool := c == ' ' || c == '\t'

/-- Whether a character may stand for itself in a comment or a string: a tab, or no control
character. -/
def isPlain (c : Char) : Bool := c == '\t' || (0x20 ≤ c.toNat && c.toNat != 0x7F)

/-- Drops spaces. -/
def skipSpace (cs : List Char) : List Char := cs.dropWhile isSpace

/-- Drops spaces, line ends and comments, beginning inside of a comment or outside. -/
def skipGapsFrom : (inComment : Bool) → List Char → List Char
  | _, [] => []
  | _, '\n' :: cs => skipGapsFrom false cs
  | true, c :: cs => if isPlain c then skipGapsFrom true cs else c :: cs
  | false, '#' :: cs => skipGapsFrom true cs
  | false, c :: cs => if isSpace c then skipGapsFrom false cs else c :: cs

/-- Drops spaces, line ends and comments. -/
def skipGaps (cs : List Char) : List Char := skipGapsFrom false cs

/-- What comes after the end of a line, on which only spaces and a comment may still stand. -/
def afterLine (cs : List Char) : Option (List Char) :=
  let rest :=
    match skipSpace cs with
    | '#' :: cs => cs.dropWhile isPlain
    | cs => cs
  match rest with
  | [] => some []
  | '\n' :: cs => some cs
  | _ => none

end SandboxCpu.Toml
