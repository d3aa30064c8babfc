import SandboxCpu.Config.Basic
import SandboxCpu.Toml.Document
/-!
# Reading a configuration

A configuration is written as a TOML document with three sections of settings, all of which may be
left out. What is not known is passed over, but the numbers in it must have values. A section may also
be an array of its settings in their order, where nothing is asked of what comes after the last one;
and a section that is a date or a time says nothing.
-/

namespace SandboxCpu

/-- Why a text is no configuration. -/
inductive ConfigError
  | malformed
  /-- A setting is not of its kind, or outside its range. -/
  | unsuitable
  /-- There is no room for an event. -/
  | noEvents
  deriving DecidableEq, Repr

/-- The wording of a configuration error. -/
def ConfigError.message : ConfigError → String
  | malformed => "不是有效的 TOML 文档"
  | unsuitable => "配置项的类型或取值范围不正确"
  | noEvents => "debug.event_list_size 必须大于 0"

namespace Config

/-- A way to find a setting by its name. -/
abbrev Section := String → Option Toml.Value

/-- Whether what is not known among some members is sound. -/
def othersSound (known : List String) (members : Toml.Members) : Bool :=
  members.all fun m => known.contains m.1 || m.2.isSound

/-- The settings of a section, whose names are known in their order. -/
def sectionOf (root : Toml.Members) (name : String) (known : List String) :
    Except ConfigError Section :=
  match root.find? name with
  | none | some (.dateTime _) => .ok fun _ => none
  | some (.table _ members) =>
    if othersSound known members then .ok (Toml.Members.find? members) else .error .unsuitable
  | some (.array items) => .ok fun key => items[known.idxOf key]?
  | some _ => .error .unsuitable

/-- A setting that is a number below `bound`. -/
def number (s : Section) (key : String) (bound default : Nat) : Except ConfigError Nat :=
  match s key with
  | none => .ok default
  | some (.number n) =>
    match n.integer? with
    | some i => if 0 ≤ i ∧ i < bound then .ok i.toNat else .error .unsuitable
    | none => .error .unsuitable
  | some _ => .error .unsuitable

/-- A setting that is an address. -/
def addressSetting (s : Section) (key : String) (default : UInt32) : Except ConfigError UInt32 :=
  UInt32.ofNat <$> number s key 0x100000000 default.toNat

/-- A setting that is a size. -/
def sizeSetting (s : Section) (key : String) (default : Nat) : Except ConfigError Nat :=
  number s key 0x10000000000000000 default

/-- The configuration of a document. -/
def ofMembers (root : Toml.Members) : Except ConfigError Config := do
  let standard : Config := {}
  if !othersSound ["memory", "debug", "syscall"] root then throw .unsuitable
  let memory ← sectionOf root "memory" ["load_addr", "entry_pc"]
  let debug ← sectionOf root "debug"
    ["event_list_size", "breakpoint_capacity", "instruction_tracer_list_size"]
  let syscall ← sectionOf root "syscall" ["read_limit"]
  return {
    loadAddr := ← addressSetting memory "load_addr" standard.loadAddr
    entryPc := ← addressSetting memory "entry_pc" standard.entryPc
    eventListSize := ← sizeSetting debug "event_list_size" standard.eventListSize
    breakpointCapacity := ← sizeSetting debug "breakpoint_capacity" standard.breakpointCapacity
    traceListSize := ← sizeSetting debug "instruction_tracer_list_size" standard.traceListSize
    readLimit := ← sizeSetting syscall "read_limit" standard.readLimit }

/-- The configuration that a text describes. There must be room for at least one event. -/
def ofText (text : String) : Except ConfigError Config := do
  let some root := Toml.parse text | throw .malformed
  let config ← ofMembers root
  if config.eventListSize = 0 then throw .noEvents
  return config

theorem eventListSize_pos_of_ofText {text : String} {config : Config}
    (h : ofText text = .ok config) : 0 < config.eventListSize := by
  simp only [ofText] at h
  cases hp : Toml.parse text with
  | none => simp [hp, throw, throwThe, MonadExceptOf.throw] at h
  | some root =>
    cases hm : ofMembers root with
    | error e => simp [hp, hm, bind, Except.bind] at h
    | ok c =>
      simp only [hp, hm, bind, Except.bind, throw, throwThe, MonadExceptOf.throw] at h
      split at h
      · simp at h
      · simp only [pure, Except.pure, Except.ok.injEq] at h
        subst h
        omega

end Config

end SandboxCpu
