/-!
# Parameters of the command line

What the words of a command line can say. A parameter has a long name and mostly a letter as well. It
is a switch, or it takes a value; breakpoints alone may be given more than once.
-/

namespace SandboxCpu.CommandLine

/-- A parameter. -/
inductive Parameter
  | image | hex | loadAddr | entry | config | debug | breakpoint | singleStep | maxSteps | disasm
  | help | version
  deriving DecidableEq, Repr

namespace Parameter

/-- All parameters. -/
def all : List Parameter :=
  [image, hex, loadAddr, entry, config, debug, breakpoint, singleStep, maxSteps, disasm, help,
    version]

/-- The name after two dashes. -/
def long : Parameter → String
  | image => "image"
  | hex => "hex"
  | loadAddr => "load-addr"
  | entry => "entry"
  | config => "config"
  | debug => "debug"
  | breakpoint => "break"
  | singleStep => "single-step"
  | maxSteps => "max-steps"
  | disasm => "disasm"
  | help => "help"
  | version => "version"

/-- The letter after a single dash. -/
def letter? : Parameter → Option Char
  | image => some 'i'
  | loadAddr => some 'l'
  | entry => some 'e'
  | config => some 'c'
  | debug => some 'd'
  | breakpoint => some 'b'
  | singleStep => some 's'
  | maxSteps => some 'm'
  | help => some 'h'
  | version => some 'V'
  | hex | disasm => none

/-- Whether a value belongs to it. -/
def takesValue : Parameter → Bool
  | image | loadAddr | entry | config | breakpoint | maxSteps => true
  | hex | debug | singleStep | disasm | help | version => false

/-- Whether it may be given more than once. -/
def repeatable (p : Parameter) : Bool := p == breakpoint

/-- The parameter with a long name. -/
def ofLong? (name : String) : Option Parameter := all.find? (·.long == name)

/-- The parameter with a letter. -/
def ofLetter? (c : Char) : Option Parameter := all.find? (·.letter? == some c)

theorem ofLetter?_of_letter? {p : Parameter} {c : Char} (h : p.letter? = some c) :
    ofLetter? c = some p := by
  cases p <;> simp only [letter?, Option.some.injEq, reduceCtorEq] at h <;> subst h <;> rfl

end Parameter

end SandboxCpu.CommandLine
