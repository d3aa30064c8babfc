import SandboxCpu.Toml.Value
/-!
# Building tables

The ways to add to the tables of a document. A key is given once. A table has one header; a header
may pass through tables and through the latest of several tables of one name, but not into a table
between braces. A dotted key may pass through tables that have no header of their own and through the
latest of several tables, and adds only to tables that dotted keys have made.
-/

namespace SandboxCpu.Toml

namespace Members

/-- The value of a key. -/
def find? (members : Members) (key : String) : Option Value := List.lookup key members

/-- A further member. -/
def add (members : Members) (key : String) (value : Value) : Members := members ++ [(key, value)]

/-- Another value for a key. -/
def replace (members : Members) (key : String) (value : Value) : Members :=
  members.map fun m => if m.1 == key then (key, value) else m

/-- Changes the table to which the keys of a header lead. -/
def within (change : Members → Option Members) : List String → Members → Option Members
  | [], members => change members
  | key :: path, members =>
    match members.find? key with
    | none => do return members.add key (.table .implied (← within change path []))
    | some (.table origin inner) =>
      if origin = .inline then none
      else do return members.replace key (.table origin (← within change path inner))
    | some (.tables (latest :: earlier)) => do
      return members.replace key (.tables ((← within change path latest) :: earlier))
    | some _ => none

/-- Gives a table its header. -/
def openTable (key : String) (members : Members) : Option Members :=
  match members.find? key with
  | none => some (members.add key (.table .header []))
  | some (.table .implied inner) => some (members.replace key (.table .header inner))
  | some _ => none

/-- Begins one more of several tables of one name. -/
def openNext (key : String) (members : Members) : Option Members :=
  match members.find? key with
  | none => some (members.add key (.tables [[]]))
  | some (.tables earlier) => some (members.replace key (.tables ([] :: earlier)))
  | some _ => none

/-- Whether a dotted key may pass through a table, with so many keys after it. -/
def admitsDotted (origin : Origin) (keysAfter : Nat) : Bool :=
  match origin with
  | .dotted => true
  | .implied => 1 < keysAfter
  | .header | .inline => false

/-- Gives a value to a dotted key. The latest of several tables is not made by dotted keys, so the value
may belong to a table in it, but not to the table itself. -/
def assign (value : Value) : List String → Members → Option Members
  | [], _ => none
  | [key], members =>
    match members.find? key with
    | none => some (members.add key value)
    | some _ => none
  | key :: path, members =>
    match members.find? key with
    | none => do return members.add key (.table .dotted (← assign value path []))
    | some (.table origin inner) =>
      if admitsDotted origin path.length then do
        return members.replace key (.table origin (← assign value path inner))
      else none
    | some (.tables (latest :: earlier)) =>
      if 1 < path.length then do
        return members.replace key (.tables ((← assign value path latest) :: earlier))
      else none
    | some _ => none

end Members

end SandboxCpu.Toml
