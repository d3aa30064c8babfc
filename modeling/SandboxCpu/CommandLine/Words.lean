import SandboxCpu.CommandLine.Arguments
/-!
# Reading the words of a command line

The words are read from left to right, and the first difficulty ends the reading. After two dashes
stands a long name, after one dash a row of letters; the value of a parameter follows in the same word,
after an equals sign or, for a letter, directly, or else it is the next word, if that does not begin
with a dash. Two dashes alone end the parameters.

A value in a word of its own waits until the next parameter is met or the words end; only then is it
looked at. So a word that is no parameter is reported before a bad value in the word ahead of it.
-/

namespace SandboxCpu.CommandLine

/-- Why the words of a command line do not become arguments. -/
inductive Interruption
  | unknown (word : String)
  | missingValue (p : Parameter)
  | unexpectedValue (p : Parameter)
  | repeated (p : Parameter)
  | invalidValue (p : Parameter) (cause : ValueError)
  | helpAsked
  | versionAsked
  deriving DecidableEq, Repr

/-- What has been read so far. -/
structure Reading where
  /-- The arguments so far. -/
  arguments : Arguments := {}
  /-- The parameters they came from. -/
  given : List Parameter := []
  /-- A parameter that waits for a value, or waits with one. -/
  waiting : Option (Parameter × Option String) := none

namespace Reading

/-- Adds a parameter with its value. -/
def put (r : Reading) (p : Parameter) (value : String) : Except Interruption Reading := do
  if p = .help then throw .helpAsked
  if p = .version then throw .versionAsked
  if r.given.contains p && !p.repeatable then throw (.repeated p)
  let arguments ← (r.arguments.add p value).mapError (.invalidValue p)
  return { r with arguments, given := p :: r.given }

/-- Adds the parameter that waits, if there is one. -/
def settle (r : Reading) : Except Interruption Reading :=
  match r.waiting with
  | none => .ok r
  | some (p, none) => .error (.missingValue p)
  | some (p, some value) => { r with waiting := none }.put p value

/-- Meets a parameter with its value, or a switch. -/
def meet (r : Reading) (p : Parameter) (value : String) : Except Interruption Reading := do
  (← r.settle).put p value

/-- Meets a parameter whose value is to follow. -/
def await (r : Reading) (p : Parameter) : Except Interruption Reading := do
  return { ← r.settle with waiting := some (p, none) }

/-- Reads a row of letters. -/
def letters (r : Reading) : List Char → Except Interruption Reading
  | [] => .ok r
  | c :: cs =>
    match Parameter.ofLetter? c with
    | none => .error (.unknown (String.ofList ['-', c]))
    | some p =>
      if !p.takesValue then do (← r.meet p "").letters cs
      else
        match cs with
        | [] => r.await p
        | '=' :: value => r.meet p (String.ofList value)
        | value => r.meet p (String.ofList value)

/-- Reads a long name, to which a value may be attached. -/
def long (r : Reading) (cs : List Char) : Except Interruption Reading :=
  let name := cs.takeWhile (· != '=')
  let attached := (cs.drop name.length).tail?
  match Parameter.ofLong? (String.ofList name), attached with
  | none, _ => .error (.unknown (String.ofList ('-' :: '-' :: name)))
  | some p, some value =>
    if p.takesValue then r.meet p (String.ofList value) else .error (.unexpectedValue p)
  | some p, none => if p.takesValue then r.await p else r.meet p ""

/-- Reads a word that is no parameter: a value, if one is waited for. -/
def plain (r : Reading) (word : String) : Except Interruption Reading :=
  match r.waiting with
  | some (p, none) => .ok { r with waiting := some (p, some word) }
  | _ => .error (.unknown word)

/-- Reads a word. -/
def word (r : Reading) (w : String) : Except Interruption Reading :=
  match w.toList with
  | '-' :: '-' :: name => r.long name
  | '-' :: c :: cs => r.letters (c :: cs)
  | _ => r.plain w

/-- Reads words up to their end, or up to two dashes alone, after which no word may stand. -/
def words (r : Reading) : List String → Except Interruption Arguments
  | [] => do return (← r.settle).arguments
  | w :: ws =>
    if w = "--" then
      match ws with
      | [] => do return (← r.settle).arguments
      | extra :: _ => .error (.unknown extra)
    else do (← r.word w).words ws

end Reading

/-- The arguments that the words of a command line give. -/
def readArguments (words : List String) : Except Interruption Arguments := Reading.words {} words

end SandboxCpu.CommandLine
