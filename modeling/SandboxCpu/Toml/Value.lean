import SandboxCpu.Toml.Number
/-!
# Values of a TOML document

What a document can say. A table remembers how it came to be, because the ways to add to it later
depend on that; nothing else about the written form of a value is kept, except for times, which are
not looked into, and numbers, whose values are worked out on demand. `Value.isSound` says of a value
that this would succeed for every number in it.
-/

namespace SandboxCpu.Toml

/-- How a table came to be. -/
inductive Origin
  /-- A longer header passes through it. -/
  | implied
  /-- It has a header of its own. -/
  | header
  /-- A dotted key passes through it. -/
  | dotted
  /-- It is written between braces. -/
  | inline
  deriving DecidableEq, Repr

/-- A value. -/
inductive Value
  | string (text : String)
  | number (numeral : Numeral)
  | boolean (value : Bool)
  /-- A date, a time or both, as it is written. -/
  | dateTime (lexeme : String)
  | array (items : List Value)
  /-- A table, its members in order of appearance. -/
  | table (origin : Origin) (members : List (String × Value))
  /-- The tables under headers in double brackets, the latest first. -/
  | tables (latestFirst : List (List (String × Value)))

/-- The members of a table, in order of appearance. -/
abbrev Members := List (String × Value)

mutual

/-- Whether every number in a value has a value within its limits. -/
def Value.isSound : Value → Bool
  | .number n => n.hasValue
  | .array items => soundItems items
  | .table _ members => soundMembers members
  | .tables latestFirst => soundTables latestFirst
  | .string _ | .boolean _ | .dateTime _ => true

/-- Whether all items of an array are sound. -/
def soundItems : List Value → Bool
  | [] => true
  | item :: items => item.isSound && soundItems items

/-- Whether all members of a table are sound. -/
def soundMembers : List (String × Value) → Bool
  | [] => true
  | (_, value) :: members => value.isSound && soundMembers members

/-- Whether all of several tables are sound. -/
def soundTables : List (List (String × Value)) → Bool
  | [] => true
  | members :: tables => soundMembers members && soundTables tables

end

end SandboxCpu.Toml
