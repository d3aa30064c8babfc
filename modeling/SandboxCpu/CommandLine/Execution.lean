import SandboxCpu.Machine.Dump
import SandboxCpu.Machine.Step
/-!
# Execution within a budget

The command line lets a guest execute a number of instructions and no more. It takes turns: in each,
the machine steps until it stops, fails, pauses or has used what was left of the budget, and a pause is
reported and then passed over. What is left is computed from the instructions executed so far, so that
a pause before an instruction costs nothing.

A turn in which nothing is executed ends in a pause, and its successor executes something. So twice the
budget and one turn are always enough, and `execute` allows that many.
-/

namespace SandboxCpu.CommandLine

/-- How execution within a budget ended. -/
inductive Verdict
  | exited (code : Int32)
  | faulted (fault : Fault)
  | exhausted
  deriving DecidableEq, Repr

/-- What is shown of a pause. -/
structure Pause where
  /-- The address of the next instruction. -/
  pc : UInt32
  /-- The state of the machine. -/
  dump : String
  /-- The events since the last pause. -/
  events : List Event
  /-- How much the guest had put out by then. -/
  written : Nat

/-- The text of a pause. -/
def Pause.text (p : Pause) : String :=
  "调试器暂停 @ " ++ Text.address p.pc ++ "\n" ++ p.dump ++ "\n"

/-- How a turn ended. -/
inductive TurnOutcome
  | over (verdict : Verdict)
  | paused
  | used
  deriving DecidableEq, Repr

variable {κ : Type} [Console κ]

/-- How much of a budget is left. -/
def budgetLeft (budget : UInt64) (m : Machine κ) : Nat :=
  budget.toNat - m.debugger.instructions.toNat

/-- One turn. -/
def turn (budget : UInt64) (m : Machine κ) : TurnOutcome × Machine κ :=
  let left := budgetLeft budget m
  if left = 0 then (.over .exhausted, m)
  else
    match m.steps left with
    | (.ok .halted, m) => (.over (.exited m.exitCode), m)
    | (.ok .paused, m) => (.paused, m)
    | (.ok .ongoing, m) => (.used, m)
    | (.error fault, m) => (.over (.faulted fault), m)

/-- The machine after a pause was reported: its events are taken. -/
def passOver (m : Machine κ) : Machine κ := { m with debugger := m.debugger.takeEvents.2 }

/-- What is shown of a machine that pauses, with `written` bytes put out so far. -/
def pauseOf (written : κ → Nat) (m : Machine κ) : Pause where
  pc := m.cpu.pc
  dump := m.dump
  events := m.debugger.takeEvents.1
  written := written m.console

/-- At most `turns` turns: the pauses added to former ones, how execution ended, if it did, and the
machine at the end. -/
def turns (written : κ → Nat) (budget : UInt64) :
    (turns : Nat) → Machine κ → Array Pause → Array Pause × Option Verdict × Machine κ
  | 0, m, pauses => (pauses, none, m)
  | n + 1, m, pauses =>
    match turn budget m with
    | (.over verdict, m) => (pauses, some verdict, m)
    | (.paused, m) => turns written budget n (passOver m) (pauses.push (pauseOf written m))
    | (.used, m) => turns written budget n m pauses

/-- As many turns as a budget may need. -/
def turnLimit (budget : UInt64) : Nat := 2 * budget.toNat + 1

/-- Execution within a budget. -/
def execute (written : κ → Nat) (budget : UInt64) (m : Machine κ) :
    Array Pause × Option Verdict × Machine κ :=
  turns written budget (turnLimit budget) m #[]

end SandboxCpu.CommandLine
