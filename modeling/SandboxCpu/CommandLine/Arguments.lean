import SandboxCpu.CommandLine.Parameter
import SandboxCpu.Config.Basic
import SandboxCpu.Text.Numeral
import SandboxCpu.Text.Quoted
/-!
# Arguments

What a command line asks for, and how its parameters add to it.
-/

namespace SandboxCpu.CommandLine

/-- What a command line asks for. -/
structure Arguments where
  /-- The file with the program image. -/
  image : Option String := none
  /-- Whether the image is written as hexadecimal text. -/
  hex : Bool := false
  /-- Where to load the image, if not where the configuration says. -/
  loadAddr : Option UInt32 := none
  /-- Where to start, if not where the configuration says. -/
  entry : Option UInt32 := none
  config : String := "profile/config.toml"
  debug : Bool := false
  breakpoints : List UInt32 := []
  /-- Whether the debugger pauses after each instruction. -/
  singleStep : Bool := false
  maxSteps : Option UInt64 := none
  /-- Whether to list the image instead of executing it. -/
  disasm : Bool := false
  deriving DecidableEq, Repr

/-- Why a value does not fit its parameter. -/
inductive ValueError
  | address (text : String) (cause : Text.NumeralError)
  | count (cause : Text.NumeralError)
  deriving DecidableEq, Repr

/-- The wording of a value error. -/
def ValueError.message : ValueError → String
  | address text cause => "无效的地址 " ++ Text.quoted text ++ ": " ++ cause.message
  | count cause => cause.message

/-- Reads an address. -/
def readAddress (text : String) : Except ValueError UInt32 :=
  (Text.markedNumeral32 text.toList).mapError (.address text)

/-- Reads a count. -/
def readCount (text : String) : Except ValueError UInt64 :=
  (Text.numeral64 10 text.toList).mapError .count

namespace Arguments

/-- Adds a parameter and its value, which is empty for a switch. -/
def add (a : Arguments) (p : Parameter) (value : String) : Except ValueError Arguments := do
  match p with
  | .image => return { a with image := some value }
  | .hex => return { a with hex := true }
  | .loadAddr => return { a with loadAddr := some (← readAddress value) }
  | .entry => return { a with entry := some (← readAddress value) }
  | .config => return { a with config := value }
  | .debug => return { a with debug := true }
  | .breakpoint => return { a with breakpoints := a.breakpoints ++ [← readAddress value] }
  | .singleStep => return { a with singleStep := true }
  | .maxSteps => return { a with maxSteps := some (← readCount value) }
  | .disasm => return { a with disasm := true }
  | .help | .version => return a

/-- A configuration in which the addresses are as the arguments say. -/
def override (a : Arguments) (config : Config) : Config :=
  { config with
    loadAddr := a.loadAddr.getD config.loadAddr
    entryPc := a.entry.getD config.entryPc }

/-- The most instructions to execute; without a word on it, as many as can be counted. -/
def budget (a : Arguments) : UInt64 := a.maxSteps.getD 0xFFFFFFFFFFFFFFFF

end Arguments

end SandboxCpu.CommandLine
