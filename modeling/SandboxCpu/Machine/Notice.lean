import SandboxCpu.Journal
import SandboxCpu.Machine.Operation
import SandboxCpu.Text.Quoted
/-!
# What a machine's journal says

The occurrences on a machine that are worth an entry, how each is written, and which of them an
operation brings about. The journal follows from the machine before the operation; the machine itself
holds no journal.
-/

namespace SandboxCpu

/-- An occurrence on a machine. -/
inductive Notice
  | consoleAttached (name : String)
  | reset
  | loaded (addr : UInt32) (size : Nat)
  | breakpointHit (pc : UInt32)
  | executing (pc word : UInt32)
  | faulted (fault : Fault)
  | protectionSet (page : Nat) (protection : Protection)
  | debuggerSwitched (enabled : Bool)
  | breakpointAdded (addr : UInt32)
  | heapExhausted (size used : UInt32)
  | systemCall (call : SystemCall)
  | exited (code : Int32)
  | unknownCall (number pc : UInt32)
  | callFailed (number : UInt32) (error : SystemCallError)
  deriving DecidableEq

namespace Notice

/-- How much an occurrence matters. -/
def level : Notice → Journal.Level
  | loaded .. => .info
  | faulted _ | unknownCall .. => .warn
  | executing .. => .trace
  | _ => .debug

/-- What an occurrence is called. -/
def message : Notice → String
  | consoleAttached _ => "设置控制台"
  | reset => "虚拟机已复位"
  | loaded .. => "加载程序镜像"
  | breakpointHit _ => "命中断点"
  | executing _ word => Listing.disassemble word
  | faulted _ => "指令执行故障"
  | protectionSet .. => "设置页保护"
  | debuggerSwitched _ => "调试器开关"
  | breakpointAdded _ => "添加断点"
  | heapExhausted .. => "堆空间不足"
  | systemCall _ => "系统调用"
  | exited _ => "客户程序退出"
  | unknownCall .. => "未知的系统调用"
  | callFailed .. => "系统调用失败"

/-- With what an occurrence came about. -/
def fields : Notice → List (String × String)
  | consoleAttached name => [("console", Text.quoted name)]
  | reset => []
  | loaded addr size => [("addr", Text.address addr), ("size", toString size)]
  | breakpointHit pc | executing pc _ => [("pc", Text.address pc)]
  | faulted fault => [("fault", fault.message)]
  | protectionSet page protection => [("page", toString page), ("flags", protection.text)]
  | debuggerSwitched enabled => [("enabled", toString enabled)]
  | breakpointAdded addr => [("addr", Text.address addr)]
  | heapExhausted size used =>
    [("size", toString size.toNat), ("used", toString used.toNat)]
  | systemCall call =>
    [("number", toString call.number.toNat), ("arg0", toString call.arg0.toNat),
      ("arg1", toString call.arg1.toNat), ("arg2", toString call.arg2.toNat)]
  | exited code => [("exit_code", toString code.toInt)]
  | unknownCall number pc => [("number", toString number.toNat), ("pc", toString pc.toNat)]
  | callFailed number error => [("number", toString number.toNat), ("error", error.message)]

/-- The entry of an occurrence. -/
def entry (n : Notice) : Journal.Entry := ⟨n.level, n.message, n.fields⟩

end Notice

namespace Machine

variable {κ : Type}

/-- The notice of a request that the heap cannot meet. -/
def allocNotices (m : Machine κ) (size : UInt32) : List Notice :=
  if m.heap.fits size then [] else [.heapExhausted size m.heap.used]

/-- The notices of a call to the host. -/
def callNotices [Console κ] (m : Machine κ) : List Notice :=
  let call := m.systemCall
  let (result, after) := m.serve call
  [.systemCall call] ++
  (if call.number = 1 then [.exited after.exitCode] else []) ++
  (if call.number = 6 then m.allocNotices call.arg0 else []) ++
  match result with
  | .ok _ => []
  | .error (.unknown number) => [.unknownCall number m.cpu.pc]
  | .error e => [.callFailed call.number e]

/-- The notices of an instruction, executed at an address. -/
def executeNotices [Console κ] (m : Machine κ) (pc word : UInt32) (i : Instruction) :
    List Notice :=
  [.executing pc word] ++
  (if i = .bare .syscall then m.callNotices else []) ++
  match ((InPlace.execute pc i).on m).1 with
  | .ok _ => []
  | .error fault => [.faulted fault]

/-- The notices of a step. -/
def stepNotices [Console κ] (m : Machine κ) : List Notice :=
  let pc := m.cpu.pc
  if m.cpu.halted then []
  else if (m.debugger.pauseBefore pc).1 then [.breakpointHit pc]
  else
    match m.fetch pc with
    | .error fault => [.faulted fault]
    | .ok word =>
      match decodeAt pc word with
      | .error fault => [.faulted fault]
      | .ok i => m.executeNotices pc word i

/-- The notices of at most `n` steps that matter at a level, added to former ones. -/
def stepsNotices [Console κ] (level : Journal.Level) :
    Nat → Machine κ → Array Notice → Array Notice
  | 0, _, notices => notices
  | n + 1, m, notices =>
    let notices := notices ++ m.stepNotices.filter (level.covers ·.level)
    match m.step with
    | (.ok .ongoing, m) => stepsNotices level n m notices
    | _ => notices

/-- The notices of an operation. Of those that its steps bring about, only the ones that matter at a
level are kept. -/
def operationNotices [Console κ] (level : Journal.Level) (m : Machine κ) :
    Operation κ → Array Notice
  | .load addr image =>
    if (m.loadProgram addr image).isOk then #[.loaded addr image.length] else #[]
  | .step => m.stepNotices.toArray
  | .steps n | .run n => stepsNotices level n m #[]
  | .reset => #[.reset]
  | .setProtection page protection => #[.protectionSet page protection]
  | .alloc size => (m.allocNotices size).toArray
  | .setDebugger enabled => #[.debuggerSwitched enabled]
  | .addBreakpoint addr =>
    if m.debugger.breakpoints.contains addr || !(m.debugger.addBreakpoint addr).isOk then #[]
    else #[.breakpointAdded addr]
  | .setConsole console => #[.consoleAttached (Console.name console)]
  | _ => #[]

end Machine

end SandboxCpu
