import SandboxCpu.Files
/-!
# File trees

Files in directories, and where a path leads through them. A path is followed name by name, and only
through directories, also where a name leads back to the directory around (`..`) or nowhere (an empty
one or `.`). The directory around the outermost one is that one itself.
-/

namespace SandboxCpu

/-- A file, or a directory of named files and directories. -/
inductive FileTree
  /-- A file with its bytes. -/
  | file (bytes : List UInt8)
  /-- A directory with what its names lead to. -/
  | directory (entries : List (String × FileTree))

namespace FileTree

/-- How many bytes a name may have. -/
def greatestName : Nat := 255

/-- How many bytes a path may have. -/
def greatestPath : Nat := 4095

/-- The names between the slashes of a path. -/
def pathNames : List Char → List (List Char)
  | [] => [[]]
  | '/' :: cs => [] :: pathNames cs
  | c :: cs =>
    match pathNames cs with
    | name :: names => (c :: name) :: names
    | [] => [[c]]

/-- Where names lead from a place in a tree, in which `around` are the directories around that place,
the innermost first. -/
def follow : (names : List String) → (around : List FileTree) → FileTree → Except ReadFailure FileTree
  | [], _, here => .ok here
  | _ :: _, _, .file _ => .error .notDirectory
  | name :: names, around, .directory entries =>
    let here := directory entries
    if name = "" ∨ name = "." then follow names around here
    else if name = ".." then
      match around with
      | outer :: around => follow names around outer
      | [] => follow names [] here
    else if greatestName < name.utf8ByteSize then .error .nameTooLong
    else
      match entries.lookup name with
      | some next => follow names (here :: around) next
      | none => .error .notFound

/-- The files of a tree, with paths that are meant from a directory on. -/
def files (root : FileTree) (home : String) : Files := fun path =>
  if '\x00' ∈ path.toList then .error .zeroInPath
  else if path = "" then .error .notFound
  else if greatestPath < path.utf8ByteSize then .error .nameTooLong
  else
    match follow ((pathNames (Files.resolve home path).toList).map String.ofList) [] root with
    | .ok (.file bytes) => .ok bytes
    | .ok (.directory _) => .error .isDirectory
    | .error e => .error e

end FileTree

end SandboxCpu
