import SandboxCpu.CommandLine.Failure
import SandboxCpu.CommandLine.Notice
import SandboxCpu.CommandLine.Words
/-!
# Sessions

A session does what the arguments ask for: it finds the configuration and the program image, lists the
image or executes it, and says how that ended. What it puts out and what its journal says stay when it
fails; nothing else outlives it.
-/

namespace SandboxCpu.CommandLine

/-- What a session works in. -/
structure Surroundings where
  files : Files
  /-- The directory from which the path of a configuration is meant. -/
  home : String
  /-- The bytes that the guest can read. -/
  input : List UInt8 := []
  /-- Down to which level the journal is kept, if it is kept. -/
  level : Option Journal.Level := none

/-- What a session leaves behind. -/
structure Record where
  output : Array UInt8 := #[]
  journal : Array Journal.Entry := #[]

/-- Work that leaves a record, and may fail. -/
abbrev Work := ExceptT Failure (StateM Record)

/-- Fails. -/
def failing {α : Type} (f : Failure) : Work α := throw f

/-- Adds entries to the journal. -/
def note (entries : Array Journal.Entry) : Work Unit :=
  modify fun r => { r with journal := r.journal ++ entries }

/-- Puts bytes out. -/
def put (bytes : Array UInt8) : Work Unit :=
  modify fun r => { r with output := r.output ++ bytes }

/-- Puts a text out. -/
def putText (text : String) : Work Unit := put text.toUTF8.data

/-- The configuration in a file. A file that does not exist says nothing. -/
def findConfig (s : Surroundings) (path : String) : Work Config := do
  let path := Files.resolve s.home path
  if !s.files.holds path then
    note #[(Notice.configMissing path).entry]
    return {}
  match s.files.text path with
  | .error e => failing (.configUnreadable path e)
  | .ok text =>
    match Config.ofText text with
    | .error e => failing (.configInvalid path e)
    | .ok config => return config

/-- The program image in a file. -/
def findImage (s : Surroundings) (path : String) (hex : Bool) : Work (List UInt8) := do
  note #[(Notice.readingImage path hex).entry]
  match s.files.image path (if hex then .hexText else .raw) with
  | .error e => failing (.image e)
  | .ok image =>
    if image.length % 4 ≠ 0 then note #[(Notice.unaligned image.length).entry]
    return image

/-- Does an operation, which is refused only if there is no room for another breakpoint. -/
def operate (s : Surroundings) (m : Machine StreamConsole) (op : Operation StreamConsole) :
    Work (Machine StreamConsole) := do
  if let some level := s.level then
    note ((m.operationNotices level op).map SandboxCpu.Notice.entry)
  match m.perform op with
  | (.breakpointsFull e, _) => failing (.breakpointsFull e)
  | (_, m) => return m

/-- The operations that set the debugger up. -/
def debuggerSetup (args : Arguments) : List (Operation StreamConsole) :=
  [.setDebugger true, .setSingleStep args.singleStep] ++ args.breakpoints.map .addBreakpoint

/-- The machine of a session, with its program in memory and its debugger set up. -/
def prepare (s : Surroundings) (args : Arguments) (config : Config) (image : List UInt8) :
    Work (Machine StreamConsole) := do
  let m := Machine.new config { input := s.input : StreamConsole }
  match m.loadProgram config.loadAddr image with
  | .error e => failing (.notLoaded config.loadAddr e)
  | .ok loaded =>
    note #[(SandboxCpu.Notice.loaded config.loadAddr image.length).entry]
    if args.debug then
      note #[(Notice.debugging args.breakpoints args.singleStep).entry]
      (debuggerSetup args).foldlM (operate s) loaded
    else return loaded

/-- Guest output and pauses, put out in their order as far as a pause. -/
structure Shown where
  output : Array UInt8 := #[]
  /-- How much of it the guest had put out. -/
  ofGuest : Nat := 0

/-- Puts out what the guest wrote before a pause, and the pause. -/
def Shown.pause (guest : Array UInt8) (s : Shown) (p : Pause) : Shown where
  output := s.output ++ guest.extract s.ofGuest p.written ++ p.text.toUTF8.data
  ofGuest := p.written

/-- Guest output with the pauses in their places. -/
def interleave (guest : Array UInt8) (pauses : Array Pause) : Array UInt8 :=
  let shown := pauses.foldl (Shown.pause guest) {}
  shown.output ++ guest.extract shown.ofGuest guest.size

/-- Executes a program and says how that ended. -/
def executeProgram (s : Surroundings) (budget : UInt64) (m : Machine StreamConsole) :
    Work Int32 := do
  if let some level := s.level then note (executionEntries level budget m)
  let (pauses, verdict, m) := execute (·.output.size) budget m
  put (interleave m.console.output pauses)
  match verdict with
  | some (.exited code) =>
    note #[(Notice.finished m.debugger.instructions m.debugger.cycles code).entry,
      (Notice.traced (Tracer.log m.tracer)).entry]
    return code
  | some (.faulted fault) =>
    note #[(Notice.state m.dump).entry]
    failing (.faulted fault)
  | some .exhausted | none =>
    note #[(Notice.state m.dump).entry]
    failing (.exhausted budget)

/-- Does what the arguments ask for. -/
def work (s : Surroundings) (args : Arguments) : Work Int32 := do
  let config := args.override (← findConfig s args.config)
  match args.image with
  | none => failing .imageUnspecified
  | some path =>
    let image ← findImage s path args.hex
    if args.disasm then
      putText (String.join ((Listing.ofImage image config.loadAddr).map (· ++ "\n")))
      return 0
    else executeProgram s args.budget (← prepare s args config image)

/-- How a session ends: an exit code or a failure, and what it leaves behind. -/
def session (s : Surroundings) (args : Arguments) : Except Failure Int32 × Record :=
  let (result, record) := (work s args).run {}
  let journal :=
    match s.level with
    | some level => Journal.atLeast level record.journal
    | none => #[]
  (result, { record with journal })

end SandboxCpu.CommandLine
