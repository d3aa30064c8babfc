import SandboxCpu.CommandLine.Session
/-!
# The program

The words of a command line, read and done, as the caller of a program sees them: a status, what was
put out, and what was reported. A status is a byte, of which the exit code of the guest has the lowest.
-/

namespace SandboxCpu.CommandLine

/-- The name of the program. -/
def programName : String := "softcpu"

/-- The version of the program. -/
def programVersion : String := "0.1.0"

/-- The answer to a request for the version. -/
def versionText : String := programName ++ " " ++ programVersion ++ "\n"

/-- How a parameter is written. -/
def Parameter.usage (p : Parameter) : String :=
  let letter := match p.letter? with
    | some c => String.ofList ['-', c, ',', ' ']
    | none => "    "
  "  " ++ letter ++ "--" ++ p.long ++ (if p.takesValue then " <VALUE>" else "") ++ "\n"

/-- The answer to a request for help. -/
def helpText : String :=
  "Usage: " ++ programName ++ " [OPTIONS]\n\nOptions:\n" ++
    String.join (Parameter.all.map Parameter.usage)

/-- The wording of an interruption. -/
def Interruption.message : Interruption → String
  | unknown word => "unexpected argument '" ++ word ++ "' found"
  | missingValue p => "a value is required for '--" ++ p.long ++ "' but none was supplied"
  | unexpectedValue p => "no value is allowed for '--" ++ p.long ++ "'"
  | repeated p => "the argument '--" ++ p.long ++ "' cannot be used multiple times"
  | invalidValue p cause => "invalid value for '--" ++ p.long ++ "': " ++ cause.message
  | helpAsked => helpText
  | versionAsked => versionText

/-- What the caller of a program sees. -/
structure Ending where
  status : UInt8
  output : Array UInt8 := #[]
  journal : Array Journal.Entry := #[]
  /-- What is reported beside the output. -/
  report : String := ""

/-- The status of an exit code. -/
def statusOf (code : Int32) : UInt8 := UInt8.ofNat code.toUInt32.toNat

/-- What an interruption comes to. -/
def Ending.ofInterruption : Interruption → Ending
  | .helpAsked => { status := 0, output := helpText.toUTF8.data }
  | .versionAsked => { status := 0, output := versionText.toUTF8.data }
  | e => { status := 2, report := "error: " ++ e.message ++ "\n" }

/-- What a session comes to. -/
def Ending.ofSession (result : Except Failure Int32) (record : Record) : Ending where
  status := match result with
    | .ok code => statusOf code
    | .error _ => 1
  output := record.output
  journal := record.journal
  report := match result with
    | .ok _ => ""
    | .error f => f.report

/-- The paths that arguments lead to. -/
def Arguments.paths (a : Arguments) (home : String) : List String :=
  Files.resolve home a.config :: a.image.toList

/-- What arguments come to. -/
def runArguments (s : Surroundings) (a : Arguments) : Ending :=
  let (result, record) := session s a
  Ending.ofSession result record

/-- What the words of a command line come to. -/
def runWords (s : Surroundings) (words : List String) : Ending :=
  match readArguments words with
  | .error e => .ofInterruption e
  | .ok a => runArguments s a

end SandboxCpu.CommandLine
