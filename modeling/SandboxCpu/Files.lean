/-!
# Files

What a program sees of the files around it: a path either leads to bytes or it does not, and then there
is a reason. Paths are absolute if they begin with a slash.
-/

namespace SandboxCpu

/-- Why a path does not lead to what was asked for. -/
inductive ReadFailure
  | notFound
  | notDirectory
  | isDirectory
  /-- The path, or a name on it, has too many bytes. -/
  | nameTooLong
  /-- No path holds a zero character. -/
  | zeroInPath
  | notText
  /-- Any other reason, in the words of the system. -/
  | other (message : String)
  deriving DecidableEq, Repr

namespace ReadFailure

/-- The wording of a failure. -/
def message : ReadFailure → String
  | notFound => "No such file or directory (os error 2)"
  | notDirectory => "Not a directory (os error 20)"
  | isDirectory => "Is a directory (os error 21)"
  | nameTooLong => "File name too long (os error 36)"
  | zeroInPath => "file name contained an unexpected NUL byte"
  | notText => "stream did not contain valid UTF-8"
  | other message => message

/-- Whether there is nothing at the path. -/
def isAbsence : ReadFailure → Bool
  | notFound | notDirectory | nameTooLong | zeroInPath => true
  | isDirectory | notText | other _ => false

end ReadFailure

/-- The files around a program, by their paths. -/
abbrev Files := String → Except ReadFailure (List UInt8)

namespace Files

/-- Whether there is anything at a path. -/
def holds (files : Files) (path : String) : Bool :=
  match files path with
  | .ok _ => true
  | .error e => !e.isAbsence

/-- The text of a file. -/
def text (files : Files) (path : String) : Except ReadFailure String := do
  let bytes ← files path
  match String.fromUTF8? ⟨bytes.toArray⟩ with
  | some text => return text
  | none => throw .notText

/-- A path that is meant from a directory on. -/
def resolve (directory path : String) : String :=
  if path.startsWith "/" then path else directory ++ "/" ++ path

end Files

end SandboxCpu
