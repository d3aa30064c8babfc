import SandboxCpu.Proofs.Console.Lines
import SandboxCpu.Proofs.Machine.Lockstep

/-!
# One machine on two consoles

A machine that reads its input from a stream and one that has the lines of the same
stream beforehand go through the same calls of `step`.  All that a guest can learn of
its console is what the console answers, and the two consoles answer alike; so they
stay what they were to each other, and the machines stay alike in everything else
(`Likeness.consoles`).

## Main result

* `consoles_agree`: the reads of the two consoles, and the machines on them.
-/

namespace SandboxCpu

/-- The likeness of machines that differ in how their console keeps its input. -/
def Likeness.consoles : Likeness StreamConsole QueueConsole where
  console := StreamConsole.Mirrors
  visible _ := True
  debugger := Eq
  write := StreamConsole.Mirrors.write
  readLine := StreamConsole.Mirrors.readLine
  record h e := congrArg (fun d => d.record e) h
  addCycles h n := congrArg (fun d => d.addCycles n) h
  countInstruction h := congrArg (fun d => d.countInstruction) h

theorem Likeness.sharesDebugger_consoles : consoles.SharesDebugger := fun _ _ => eq_comm

namespace Machine

/-- Given to one machine, the two consoles are all that differs. -/
theorem alike_setConsole {κ : Type} (m : Machine κ) {c : StreamConsole} {c' : QueueConsole}
    (h : c.Mirrors c') : Likeness.consoles.Alike (m.setConsole c) (m.setConsole c') where
  cpu := rfl
  memory := Memory.agreesOn_all_iff.mpr rfl
  heap := rfl
  timer := rfl
  exitCode := rfl
  config := rfl
  console := h
  debugger := rfl
  trace := rfl
  traceRoom := rfl

/-- **The two consoles agree.**  Take any stream of bytes and its lines, cut behind
each line feed; there always are some.

Read with any limits in turn, the consoles give the same: in the `i`-th call as much
of the `i`-th line as the limit lets through, without its end, and nothing once the
lines are used up.  The end of a line is a line feed, with a carriage return before it
if there is one; without a line feed nothing is dropped.

Any machine that is given the one console or the other, with the same output so far,
goes through the same calls of `step`, any number of them: with the same answers,
processor, memory, heap, timer, debugger, phase, exit code and trace, and with the same
bytes put out. -/
theorem consoles_agree (bytes : List UInt8) :
    Cut bytes (cutLines bytes) ∧
    (∀ (line : List UInt8), lineFeed ∉ line → ∀ limit,
      trimLine (line ++ [lineFeed]) limit =
        (if line.getLast? = some carriageReturn then line.dropLast else line).take limit ∧
      trimLine line limit = line.take limit) ∧
    ∀ lines, Cut bytes lines →
      lines.flatten = bytes ∧
      (∀ (output output' : Array UInt8) (limits : List Nat),
        let answers : List (Except ConsoleError (List UInt8)) :=
          limits.mapIdx fun i limit => .ok (trimLine (lines.getD i []) limit)
        Console.reads (⟨bytes, output⟩ : StreamConsole) limits = answers ∧
        Console.reads (⟨lines, output'⟩ : QueueConsole) limits = answers) ∧
      ∀ {κ : Type} (m : Machine κ) (output : Array UInt8) (n : Nat),
        let s := (m.setConsole (⟨bytes, output⟩ : StreamConsole)).stepped n
        let q := (m.setConsole (⟨lines, output⟩ : QueueConsole)).stepped n
        q.step.1 = s.step.1 ∧ q.cpu = s.cpu ∧ q.memory = s.memory ∧ q.heap = s.heap ∧
        q.timer = s.timer ∧ q.debugger = s.debugger ∧ q.phase = s.phase ∧
        q.exitCode = s.exitCode ∧ Ring.toList q.tracer = Ring.toList s.tracer ∧
        q.console.output = s.console.output := by
  refine ⟨cut_cutLines bytes, fun line hline limit => ⟨?_, trimLine_of_not_mem hline limit⟩,
    fun lines hcut => ⟨hcut.flatten_eq, fun output output' limits => ?_,
      fun m output n => ?_⟩⟩
  · rw [trimLine, chomp_append_lineFeed]
  · intro answers
    have hmirrors : (⟨bytes, output⟩ : StreamConsole).Mirrors ⟨lines, output⟩ := ⟨hcut, rfl⟩
    rw [← hmirrors.reads, QueueConsole.reads_eq, QueueConsole.reads_eq]
    exact ⟨rfl, rfl⟩
  · intro s q
    have hmirrors : (⟨bytes, output⟩ : StreamConsole).Mirrors ⟨lines, output⟩ := ⟨hcut, rfl⟩
    have hfirst := m.alike_setConsole hmirrors
    have hshares := Likeness.sharesDebugger_consoles
    have h : Likeness.consoles.Alike s q := hfirst.stepped hshares n
    exact ⟨(h.step hshares).1, h.cpu, Memory.agreesOn_all_iff.mp h.memory, h.heap, h.timer,
      h.debugger_eq hshares, hfirst.phase_stepped hshares rfl n, h.exitCode, h.trace,
      h.console.output⟩

end Machine

end SandboxCpu
