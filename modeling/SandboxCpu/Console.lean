/-!
# Consoles

A console is where the guest's output goes and where its lines of input come from. The machine works
with any type that can do both, and makes no assumption about the answers: a console may refuse, and
may return more than it was asked for.

Two consoles are given here. A `QueueConsole` holds its lines beforehand and collects the output; a
`StreamConsole` cuts lines from a stream of bytes. Both end a line in the same way: a line feed and a
carriage return before it are dropped, and what is above the limit is cut off and lost.
-/

namespace SandboxCpu

/-- Why a console refuses, in its own words. -/
structure ConsoleError where
  message : String
  deriving DecidableEq, Repr

/-- What the machine asks of a console. -/
class Console (κ : Type) where
  /-- The name of the console in the journal. -/
  name : κ → String
  write : κ → List UInt8 → Except ConsoleError Unit × κ
  /-- Gets a line of up to `limit` bytes without its end. -/
  readLine : κ → (limit : Nat) → Except ConsoleError (List UInt8) × κ

/-- The byte that ends a line. -/
def lineFeed : UInt8 := 10

/-- The byte that may precede the end of a line. -/
def carriageReturn : UInt8 := 13

/-- A line without its end. A carriage return counts only before a line feed. -/
def chomp (line : List UInt8) : List UInt8 :=
  match line.reverse with
  | b :: rest =>
    if b = lineFeed then
      match rest with
      | c :: rest' => if c = carriageReturn then rest'.reverse else rest.reverse
      | [] => []
    else line
  | [] => []

/-- A line as the guest gets it: without its end, and no longer than the limit. -/
def trimLine (line : List UInt8) (limit : Nat) : List UInt8 := (chomp line).take limit

/-! ## Lines held beforehand -/

/-- A console that holds its lines and collects what is written. -/
structure QueueConsole where
  /-- The lines not yet read. -/
  input : List (List UInt8) := []
  /-- The bytes written so far. -/
  output : Array UInt8 := #[]

namespace QueueConsole

/-- Collects bytes. -/
def write (c : QueueConsole) (bytes : List UInt8) : QueueConsole :=
  { c with output := c.output ++ bytes }

/-- The first line, or nothing when there are none. -/
def readLine (c : QueueConsole) (limit : Nat) : List UInt8 × QueueConsole :=
  match c.input with
  | [] => ([], c)
  | line :: rest => (trimLine line limit, { c with input := rest })

end QueueConsole

instance : Console QueueConsole where
  name _ := "buffer"
  write c bytes := (.ok (), c.write bytes)
  readLine c limit := (.ok (c.readLine limit).1, (c.readLine limit).2)

/-! ## A stream of bytes -/

/-- The bytes up to and including the first line feed, and those after it. Without a line feed, all
bytes are the line. -/
def splitLine : List UInt8 → List UInt8 × List UInt8
  | [] => ([], [])
  | b :: bs =>
    if b = lineFeed then ([b], bs)
    else
      let rest := splitLine bs
      (b :: rest.1, rest.2)

/-- A console between two streams of bytes. -/
structure StreamConsole where
  /-- The bytes not yet read. -/
  input : List UInt8 := []
  /-- The bytes written so far. -/
  output : Array UInt8 := #[]

namespace StreamConsole

/-- Puts bytes out. -/
def write (c : StreamConsole) (bytes : List UInt8) : StreamConsole :=
  { c with output := c.output ++ bytes }

/-- The next line; nothing at the end of the input. -/
def readLine (c : StreamConsole) (limit : Nat) : List UInt8 × StreamConsole :=
  let line := splitLine c.input
  (trimLine line.1 limit, { c with input := line.2 })

end StreamConsole

instance : Console StreamConsole where
  name _ := "stdio"
  write c bytes := (.ok (), c.write bytes)
  readLine c limit := (.ok (c.readLine limit).1, (c.readLine limit).2)

theorem splitLine_append (bytes : List UInt8) :
    (splitLine bytes).1 ++ (splitLine bytes).2 = bytes := by
  induction bytes with
  | nil => rfl
  | cons b bs ih =>
    unfold splitLine
    split
    · rfl
    · simp [ih]

theorem length_trimLine_le (line : List UInt8) (limit : Nat) :
    (trimLine line limit).length ≤ limit :=
  List.length_take_le limit (chomp line)

/-! ## Consoles that keep to the limit -/

/-- No line is longer than what was asked for. -/
def Console.KeepsLimit (κ : Type) [Console κ] : Prop :=
  ∀ (c : κ) (limit : Nat) {line : List UInt8} {c' : κ},
    Console.readLine c limit = (.ok line, c') → line.length ≤ limit

theorem keepsLimit_queue : Console.KeepsLimit QueueConsole := by
  intro c limit line c' h
  cases h
  unfold QueueConsole.readLine
  split
  · exact Nat.zero_le _
  · exact length_trimLine_le _ _

theorem keepsLimit_stream : Console.KeepsLimit StreamConsole := by
  intro c limit line c' h
  cases h
  exact length_trimLine_le _ _

end SandboxCpu
