import SandboxCpu.Toml.Number
/-!
# Dates and times

A date, a time of day, or both, the latter with or without an offset. They are checked against the
calendar and the clock. A minute may have a sixtieth second, for the days that were given one more.
-/

namespace SandboxCpu.Toml

/-- Reads exactly `count` decimal digits. -/
def fixedDigits (count : Nat) (cs : List Char) : Option (Nat × List Char) := do
  let digits := cs.take count
  if digits.length = count then return (← digitsValue? 10 digits, cs.drop count) else none

/-- Reads one of some characters. -/
def oneOf (choices : List Char) : List Char → Option (List Char)
  | c :: cs => if choices.contains c then some cs else none
  | [] => none

/-- Whether February has a day more. -/
def isLeapYear (year : Nat) : Bool := year % 4 == 0 && (year % 100 != 0 || year % 400 == 0)

/-- How many days a month has. -/
def daysInMonth (year month : Nat) : Nat :=
  match month with
  | 2 => if isLeapYear year then 29 else 28
  | 4 | 6 | 9 | 11 => 30
  | _ => 31

/-- What comes after a date of the calendar. -/
def afterDate (cs : List Char) : Option (List Char) := do
  let (year, cs) ← fixedDigits 4 cs
  let (month, cs) ← fixedDigits 2 (← oneOf ['-'] cs)
  let (day, cs) ← fixedDigits 2 (← oneOf ['-'] cs)
  if 1 ≤ month ∧ month ≤ 12 ∧ 1 ≤ day ∧ day ≤ daysInMonth year month then some cs else none

/-- What comes after hours and minutes. -/
def afterClock (cs : List Char) : Option (List Char) := do
  let (hour, cs) ← fixedDigits 2 cs
  let (minute, cs) ← fixedDigits 2 (← oneOf [':'] cs)
  if hour ≤ 23 ∧ minute ≤ 59 then some cs else none

/-- What comes after a fraction of a second, if there is one. -/
def afterFraction : List Char → Option (List Char)
  | '.' :: cs => if (cs.head?.any Char.isDigit) then some (cs.dropWhile Char.isDigit) else none
  | cs => some cs

/-- What comes after a time of day, which may leave out the seconds. -/
def afterTime (cs : List Char) : Option (List Char) := do
  match ← afterClock cs with
  | ':' :: cs =>
    let (second, cs) ← fixedDigits 2 cs
    if second ≤ 60 then afterFraction cs else none
  | cs => some cs

/-- What comes after an offset, if there is one. -/
def afterOffset : List Char → Option (List Char)
  | [] => some []
  | 'Z' :: cs | 'z' :: cs => some cs
  | '+' :: cs | '-' :: cs => afterClock cs
  | _ => none

/-- Whether a text is a date, a time of day, or both. -/
def isDateTime (cs : List Char) : Bool :=
  match afterDate cs with
  | some [] => true
  | some rest => ((oneOf ['T', 't', ' '] rest).bind afterTime |>.bind afterOffset) == some []
  | none => afterTime cs == some []

end SandboxCpu.Toml
