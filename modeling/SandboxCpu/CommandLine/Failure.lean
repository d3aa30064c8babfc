import SandboxCpu.Config.Reader
import SandboxCpu.Debugger
import SandboxCpu.Fault
import SandboxCpu.Image.File
/-!
# Failures of the command line

Why the command line does not come to an exit code of the guest. A failure has a chain of causes, from
the outermost to the innermost, each of which explains the one before it.
-/

namespace SandboxCpu.CommandLine

/-- Why there is no exit code. -/
inductive Failure
  | configUnreadable (path : String) (cause : ReadFailure)
  | configInvalid (path : String) (cause : ConfigError)
  | imageUnspecified
  | image (cause : ImageFailure)
  | notLoaded (addr : UInt32) (cause : MemoryError)
  | breakpointsFull (cause : BreakpointsFull)
  | exhausted (budget : UInt64)
  | faulted (fault : Fault)
  deriving DecidableEq

namespace Failure

/-- The wording of a failure, from the outermost to the innermost cause. A fault in an access shows
the reason in its own wording, and has it as its cause as well. -/
def causes : Failure → List String
  | configUnreadable path cause => ["无法读取配置文件: " ++ Text.quoted path, cause.message]
  | configInvalid path cause => ["无法解析配置文件: " ++ Text.quoted path, cause.message]
  | imageUnspecified => ["未指定程序镜像 (--image)"]
  | image cause => cause.causes
  | notLoaded addr cause => ["无法加载程序镜像到 " ++ Text.address addr, cause.message]
  | breakpointsFull cause => [cause.message]
  | exhausted budget => ["达到最大执行指令数 " ++ toString budget.toNat]
  | faulted fault =>
    ["客户程序执行故障", fault.message] ++ (fault.source?.map MemoryError.message).toList

/-- The chain of causes in one line. -/
def line (f : Failure) : String := ": ".intercalate f.causes

/-- The causes under a headline, numbered if there are several. -/
def listing : List String → String
  | [] => ""
  | [cause] => "\n\nCaused by:\n    " ++ cause
  | causes =>
    "\n\nCaused by:" ++
      String.join (causes.zipIdx.map fun c => "\n    " ++ toString c.2 ++ ": " ++ c.1)

/-- The report of a failure, on several lines. -/
def report (f : Failure) : String := "Error: " ++ f.causes.headD "" ++ listing f.causes.tail ++ "\n"

end Failure

end SandboxCpu.CommandLine
