import SandboxCpu.CommandLine.Program
/-!
# The outermost layer

Reads the files that the arguments lead to and the standard input to its end, runs the program, and
shows what it comes to. Everything that is decided is decided elsewhere.
-/

namespace SandboxCpu.CommandLine

/-- Whether a system's code for an error is a number, with either sign. -/
def isCode (code number : UInt32) : Bool := code == number || code == -number

/-- The reason why a file could not be read. -/
def readFailureOf : IO.Error → ReadFailure
  | .noFileOrDirectory .. => .notFound
  | .inappropriateType _ code _ => if isCode code 20 then .notDirectory else .isDirectory
  | e@(.invalidArgument _ code _) => if isCode code 36 then .nameTooLong else .other (toString e)
  | e => .other (toString e)

/-- What a path leads to. -/
def readPath (path : String) : IO (String × Except ReadFailure (List UInt8)) := do
  if path.contains '\x00' then return (path, .error .zeroInPath)
  try
    return (path, .ok (← IO.FS.readBinFile path).toList)
  catch e => return (path, .error (readFailureOf e))

/-- The files that were read. -/
def filesOf (found : List (String × Except ReadFailure (List UInt8))) : Files :=
  fun path => (found.lookup path).getD (.error .notFound)

/-- Shows what a run comes to. -/
def showEnding (e : Ending) : IO UInt32 := do
  let out ← IO.getStdout
  out.write ⟨e.output⟩
  out.flush
  for entry in e.journal do
    IO.eprintln entry.text
  IO.eprint e.report
  return e.status.toUInt32

/-- The whole program. -/
def runProgram (words : List String) : IO UInt32 := do
  match readArguments words with
  | .error e => showEnding (.ofInterruption e)
  | .ok a =>
    let home := "."
    let found ← (a.paths home).mapM readPath
    let input := (← (← IO.getStdin).readBinToEnd).toList
    IO.eprintln (Notice.started programVersion).entry.text
    showEnding (runArguments { files := filesOf found, home, input, level := some .info } a)

end SandboxCpu.CommandLine

/-- The entry point. -/
def main (words : List String) : IO UInt32 := SandboxCpu.CommandLine.runProgram words
