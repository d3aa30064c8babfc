/-!
# The journal

What happens is written down in entries. An entry has a level, a message and named fields, and is shown
on one line, as long as its message has only one.
-/

namespace SandboxCpu.Journal

/-- How much an entry matters, from most to least. -/
inductive Level
  | error | warn | info | debug | trace
  deriving DecidableEq, Repr

namespace Level

/-- The place of a level; a lower rank matters more. -/
def rank : Level → Nat
  | error => 0
  | warn => 1
  | info => 2
  | debug => 3
  | trace => 4

/-- Whether an entry of level `l` is shown when entries down to a level are asked for. -/
def covers (asked l : Level) : Bool := l.rank ≤ asked.rank

/-- The name of a level. -/
def text : Level → String
  | error => "ERROR"
  | warn => "WARN"
  | info => "INFO"
  | debug => "DEBUG"
  | trace => "TRACE"

/-- The level of a name, in letters of either case. -/
def ofText? (s : String) : Option Level :=
  [error, warn, info, debug, trace].find? (·.text == s.toUpper)

end Level

/-- An entry of the journal. -/
structure Entry where
  /-- How much it matters. -/
  level : Level
  /-- What happened. -/
  message : String
  /-- With what, by name. -/
  fields : List (String × String) := []
  deriving DecidableEq, Repr

/-- An entry as text: the level, the message, and the fields in order. -/
def Entry.text (e : Entry) : String :=
  e.level.text ++ " " ++ e.message ++ String.join (e.fields.map fun f => " " ++ f.1 ++ "=" ++ f.2)

/-- The entries that matter at least as much as `level`. -/
def atLeast (level : Level) (entries : Array Entry) : Array Entry :=
  entries.filter (level.covers ·.level)

end SandboxCpu.Journal
