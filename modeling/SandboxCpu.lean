import SandboxCpu.Word.Field
import SandboxCpu.Word.LittleEndian
import SandboxCpu.Text.Quoted
import SandboxCpu.Text.Blank
import SandboxCpu.Text.Numeral
import SandboxCpu.Ring
import SandboxCpu.Alu
import SandboxCpu.Isa.Listing
import SandboxCpu.Memory.AddressSpace
import SandboxCpu.Heap
import SandboxCpu.Timer
import SandboxCpu.Cpu
import SandboxCpu.Debugger
import SandboxCpu.Tracer
import SandboxCpu.Console
import SandboxCpu.Fault
import SandboxCpu.Config.Basic
import SandboxCpu.Machine.Step
import SandboxCpu.Machine.Dump
import SandboxCpu.Machine.Notice
import SandboxCpu.Image.HexText
import SandboxCpu.Toml.Value
import SandboxCpu.Toml.Spacing
import SandboxCpu.Toml.Quotation
import SandboxCpu.Toml.Number
import SandboxCpu.Toml.DateTime
import SandboxCpu.Toml.Document
import SandboxCpu.Config.Reader
import SandboxCpu.Files
import SandboxCpu.Files.Tree
import SandboxCpu.Image.File
import SandboxCpu.CommandLine.Words
import SandboxCpu.CommandLine.Session
import SandboxCpu.CommandLine.Program
import SandboxCpu.Main
import SandboxCpu.Proofs.Word.Integer
import SandboxCpu.Proofs.Word.Lens
import SandboxCpu.Proofs.Word.Checked
import SandboxCpu.Proofs.Alu.Exact
import SandboxCpu.Proofs.Alu.Checked
import SandboxCpu.Proofs.Memory.Permission
import SandboxCpu.Proofs.Memory.Access
import SandboxCpu.Proofs.Ring.Recent
import SandboxCpu.Proofs.Ring.Queue
import SandboxCpu.Proofs.Console.Lines
import SandboxCpu.Proofs.Debugger.History
import SandboxCpu.Proofs.Debugger.Counters
import SandboxCpu.Proofs.Debugger.Breakpoints
import SandboxCpu.Proofs.Heap.Blocks
import SandboxCpu.Proofs.Machine.Transaction
import SandboxCpu.Proofs.Machine.Likeness
import SandboxCpu.Proofs.Machine.Calls
import SandboxCpu.Proofs.Machine.Confinement
import SandboxCpu.Proofs.Machine.Frame
import SandboxCpu.Proofs.Machine.History
import SandboxCpu.Proofs.Machine.Transparency
import SandboxCpu.Proofs.Machine.Atomicity
import SandboxCpu.Proofs.Machine.Plain
import SandboxCpu.Proofs.Isa.Table
import SandboxCpu.Proofs.Isa.Conformance
import SandboxCpu.Proofs.Isa.Encoding
import SandboxCpu.Proofs.Machine.Conformance
import SandboxCpu.Proofs.Machine.Chronicle
import SandboxCpu.Proofs.Machine.Breakpoint
import SandboxCpu.Proofs.Machine.Phase
import SandboxCpu.Proofs.Machine.Lockstep
import SandboxCpu.Proofs.Machine.Secrecy
import SandboxCpu.Proofs.Machine.Consoles
import SandboxCpu.Proofs.Machine.Reset
import SandboxCpu.Proofs.Machine.HostCall
import SandboxCpu.Proofs.Machine.InputBuffer
import SandboxCpu.Proofs.Machine.Trace
import SandboxCpu.Proofs.Machine.Listing
import SandboxCpu.Proofs.Machine.Bookkeeping
import SandboxCpu.Proofs.Machine.Events
import SandboxCpu.Proofs.Machine.Counters
import SandboxCpu.Proofs.Machine.Iteration
import SandboxCpu.Proofs.Machine.Stack
import SandboxCpu.Proofs.Isa.Comparison
import SandboxCpu.Proofs.Machine.Allocation
import SandboxCpu.Proofs.Machine.Transfer
import SandboxCpu.Proofs.Text.Written
import SandboxCpu.Proofs.Isa.Disassembly
import SandboxCpu.Proofs.Image.Token
import SandboxCpu.Proofs.Text.Numeral
import SandboxCpu.Proofs.Image.Grammar
import SandboxCpu.Proofs.Image.RoundTrip
import SandboxCpu.Proofs.CommandLine.Address
import SandboxCpu.Proofs.Machine.Window
import SandboxCpu.Proofs.CommandLine.Turns
import SandboxCpu.Proofs.CommandLine.Budget
import SandboxCpu.Proofs.CommandLine.Outcome
import SandboxCpu.Proofs.Toml.Table
import SandboxCpu.Proofs.Toml.Number
