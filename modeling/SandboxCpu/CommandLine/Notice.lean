import SandboxCpu.CommandLine.Execution
import SandboxCpu.Image.File
import SandboxCpu.Machine.Notice
/-!
# What the command line's journal says

The occurrences around a run that are worth an entry, beside those on the machine itself.
-/

namespace SandboxCpu.CommandLine

/-- An occurrence around a run. -/
inductive Notice
  | started (version : String)
  | configMissing (path : String)
  | readingImage (path : String) (hex : Bool)
  | unaligned (size : Nat)
  | debugging (breakpoints : List UInt32) (singleStep : Bool)
  | event (e : Event)
  | state (dump : String)
  | finished (instructions cycles : UInt64) (code : Int32)
  | traced (log : String)

namespace Notice

/-- Numbers between brackets. -/
def numberList (ns : List UInt32) : String :=
  "[" ++ ", ".intercalate (ns.map fun n => toString n.toNat) ++ "]"

/-- The entry of an occurrence. -/
def entry : Notice → Journal.Entry
  | started version => ⟨.info, "启动软件CPU虚拟机", [("version", Text.quoted version)]⟩
  | configMissing path => ⟨.warn, "配置文件不存在，使用默认配置", [("path", path)]⟩
  | readingImage path hex => ⟨.info, "读取程序镜像", [("path", path), ("hex", toString hex)]⟩
  | unaligned size =>
    ⟨.warn, "镜像长度 " ++ toString size ++ " 不是 4 的倍数", [("len", toString size)]⟩
  | debugging breakpoints singleStep =>
    ⟨.info, "启用调试模式",
      [("breakpoints", numberList breakpoints), ("single_step", toString singleStep)]⟩
  | event e => ⟨.info, "调试事件", [("event", e.text)]⟩
  | state dump => ⟨.error, "CPU状态:\n" ++ dump, []⟩
  | finished instructions cycles code =>
    ⟨.info, "执行完成: " ++ toString instructions.toNat ++ " 条指令, " ++ toString cycles.toNat ++
      " 个周期, 退出码 " ++ toString code.toInt, []⟩
  | traced log =>
    if log.isEmpty then ⟨.info, "没有追踪日志", []⟩ else ⟨.info, "追踪日志:\n" ++ log, []⟩

end Notice

variable {κ : Type} [Console κ]

/-- The entries of at most `count` turns that matter at a level, added to former ones. -/
def turnsEntries (level : Journal.Level) (budget : UInt64) :
    (count : Nat) → Machine κ → Array Journal.Entry → Array Journal.Entry
  | 0, _, entries => entries
  | n + 1, m, entries =>
    let steps := SandboxCpu.Machine.stepsNotices level (budgetLeft budget m) m #[]
    let entries := entries ++ steps.map SandboxCpu.Notice.entry
    match turn budget m with
    | (.over _, _) => entries
    | (.paused, m) =>
      let events := m.debugger.takeEvents.1.map fun e => (Notice.event e).entry
      turnsEntries level budget n (passOver m) (entries ++ events)
    | (.used, m) => turnsEntries level budget n m entries

/-- The entries of an execution within a budget that matter at a level. -/
def executionEntries (level : Journal.Level) (budget : UInt64) (m : Machine κ) :
    Array Journal.Entry :=
  turnsEntries level budget (turnLimit budget) m #[]

end SandboxCpu.CommandLine
