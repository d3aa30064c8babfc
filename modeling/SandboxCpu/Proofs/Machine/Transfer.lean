import SandboxCpu.Proofs.Console.Lines
import SandboxCpu.Proofs.Machine.Bookkeeping
import SandboxCpu.Proofs.Memory.Access

/-!
# Bytes between guest and console

A guest prints a range of its memory, and reads a line into one.  Here it is said
which bytes go over in each direction, on a console that holds its lines beforehand
and collects the output.

Both calls look at the permissions of the whole range first, a read also at those of
the bytes that the line will not fill.  A print then adds the range to the output as
it is.  A read takes one line from the queue, or none if there is none; what arrives
is the line without its end (`LineBody`), cut off at the smaller of the range and the
configured limit.

As nothing else reaches the console, the output after a run can be read off its
chronicle: it is what was there before, and then the ranges that were printed, in their
order (`printed`).

## Main results

* `lineBody_iff`: what the end of a line is.
* `output_step`: what a call of `step` adds to the output.
* `transfers_exactly`: both calls, and the output of a run.
-/

namespace SandboxCpu

open Isa

/-! ## The end of a line -/

/-- The second list is the first without the end of a line. -/
inductive LineBody : List UInt8 → List UInt8 → Prop
  /-- A line feed is dropped together with a carriage return before it. -/
  | returned (body : List UInt8) : LineBody (body ++ [carriageReturn, lineFeed]) body
  /-- So is a line feed alone. -/
  | fed {body : List UInt8} (hlast : body.getLast? ≠ some carriageReturn) :
      LineBody (body ++ [lineFeed]) body
  /-- A line that does not end with a line feed stays whole. -/
  | whole {line : List UInt8} (hlast : line.getLast? ≠ some lineFeed) : LineBody line line

/-- Only a line feed in the last place is the end of a line. -/
theorem chomp_of_getLast? {line : List UInt8} (h : line.getLast? ≠ some lineFeed) :
    chomp line = line := by
  unfold chomp
  split
  · rename_i b rest hreverse
    have hne : b ≠ lineFeed := by
      rintro rfl
      rw [← List.head?_reverse, hreverse] at h
      exact h rfl
    rw [if_neg hne]
  · rename_i hreverse
    exact (List.reverse_eq_nil_iff.mp hreverse).symm

theorem lineBody_iff {line body : List UInt8} : LineBody line body ↔ chomp line = body := by
  constructor
  · intro h
    cases h with
    | returned body =>
        have hlast : (body ++ [carriageReturn]).getLast? = some carriageReturn :=
          List.getLast?_concat
        rw [show body ++ [carriageReturn, lineFeed] = body ++ [carriageReturn] ++ [lineFeed] from
          (List.append_assoc body [carriageReturn] [lineFeed]).symm, chomp_append_lineFeed, if_pos hlast,
          List.dropLast_concat]
    | fed hlast => rw [chomp_append_lineFeed, if_neg hlast]
    | whole hlast => exact chomp_of_getLast? hlast
  · rintro rfl
    by_cases hfeed : line.getLast? = some lineFeed
    · obtain ⟨body, rfl⟩ := List.getLast?_eq_some_iff.mp hfeed
      rw [chomp_append_lineFeed]
      by_cases hreturn : body.getLast? = some carriageReturn
      · obtain ⟨rest, rfl⟩ := List.getLast?_eq_some_iff.mp hreturn
        rw [if_pos hreturn, List.dropLast_concat, List.append_assoc]
        exact .returned rest
      · rw [if_neg hreturn]
        exact .fed hreturn
    · rw [chomp_of_getLast? hfeed]
      exact .whole hfeed

namespace Machine

/-! ## Steps that call the host -/

section AnyConsole

variable {κ : Type} [Console κ] {m n : Machine κ}

/-- To be about to execute the call instruction is to have it for the next one. -/
theorem calling_iff : m.Calling ↔ m.instruction = some (.bare .syscall) := by
  constructor
  · intro h
    obtain ⟨word, hfetch, hdecode⟩ := h.instruction
    rw [instruction, executing_of_done h.halted h.pauses (attempt_call hfetch hdecode)]
    show (Instruction.decode word).toOption = _
    rw [hdecode]
    rfl
  · intro h
    obtain ⟨word, hread, hdecode⟩ := fetch_of_instruction h
    have hsome : ¬ (m.cpu.halted = true ∨ m.pauses = true ∨ ∃ f, m.step.1 = .error f) := by
      rw [← instruction_eq_none_iff, h]
      exact Option.some_ne_none _
    rw [not_or, not_or, Bool.not_eq_true, Bool.not_eq_true] at hsome
    exact ⟨hsome.1, hsome.2.1, word, by rw [fetch, hread], hdecode⟩

omit [Console κ] in
theorem console_retire (m : Machine κ) (pc word : UInt32) (flow : Flow) :
    (m.retire pc word flow).2.console = m.console := by
  unfold retire
  dsimp only
  split
  · rfl
  · split <;> rfl

/-- Only the call instruction reaches the console. -/
theorem console_step (h : m.instruction ≠ some (.bare .syscall)) :
    m.step.2.console = m.console := by
  cases m.situation with
  | stopped hhalted => rw [step_of_halted hhalted]
  | held hpauses =>
      rw [step_of_pauses hpauses]
      rfl
  | failed hhalted hpauses hattempt =>
      rw [step_of_fault hhalted hpauses hattempt]
      rfl
  | @done word flow n hhalted hpauses hattempt =>
      obtain ⟨i, hi, hexecute⟩ := instruction_of_done hhalted hpauses hattempt
      have hother : i ≠ .bare .syscall := by
        rintro rfl
        exact h hi
      rw [step_of_success hhalted hpauses hattempt]
      show (n.retire _ _ _).2.console = m.console
      rw [console_retire, (Local.of_execute hexecute hother).rest]
      rfl

end AnyConsole

end Machine

/-- An effect that stores bytes writes them. -/
theorem Isa.Effect.Brings.written {κ : Type} {e : Effect κ} {m n : Machine κ} {addr : UInt32}
    {bytes : List UInt8} (h : e.Brings m n) (hstore : e.store = some (addr, bytes))
    (hfits : addr.toNat + bytes.length ≤ 65536) :
    m.memory.Written n.memory addr.toNat bytes := by
  have hmemory : n.memory = m.memory.setBytes addr.toNat bytes := by
    refine Memory.ext_of_views (fun a => ?_) fun a => ?_
    · rw [h.byteAt, Effect.byteAfter, hstore, Memory.byteAt_setBytes _ _ _ _ hfits]
    · rw [h.protectionAt, Memory.protectionAt_setBytes]
  rw [hmemory]
  exact m.memory.written_setBytes hfits

namespace Machine

/-! ## The two calls -/

section Queue

variable {m : Machine QueueConsole}

/-- What a print does that may read its range. -/
theorem callEffect_of_readable (hnumber : m.systemCall.number = 2)
    (hrange : m.memory.Granted .reading m.systemCall.arg0 m.systemCall.arg1.toNat) :
    m.callEffect = (answer m.systemCall.arg1).leaving (m.console.write
      (m.memory.bytesAt m.systemCall.arg0.toNat m.systemCall.arg1.toNat)) := by
  rw [callEffect_print m hnumber, print, if_pos hrange]
  rfl

/-- The line that a read gets. -/
def nextLine (m : Machine QueueConsole) : List UInt8 :=
  trimLine (m.console.input.headD []) m.readBound

/-- What a read does that may write its range. -/
theorem callEffect_of_writable (hnumber : m.systemCall.number = 3)
    (hrange : m.memory.Granted .writing m.systemCall.arg0 m.systemCall.arg1.toNat) :
    m.callEffect = Effect.leaving
      { answer (UInt32.ofNat m.nextLine.length) with
        store := some (m.systemCall.arg0, m.nextLine) }
      { m.console with input := m.console.input.tail } := by
  have hline : Console.readLine m.console (min m.systemCall.arg1.toNat m.config.readLimit) =
      (.ok m.nextLine, { m.console with input := m.console.input.tail }) := by
    show (Except.ok (m.console.readLine m.readBound).1, (m.console.readLine m.readBound).2) = _
    rw [QueueConsole.readLine_eq]
    rfl
  have hlength : m.nextLine.length ≤ min m.systemCall.arg1.toNat m.config.readLimit :=
    length_trimLine_le _ _
  have hfits : m.memory.Granted .writing m.systemCall.arg0 m.nextLine.length :=
    hrange.mono (Nat.le_trans hlength (Nat.min_le_left _ _))
  rw [callEffect_read m hnumber, receiveLine, if_pos hrange, hline]
  exact if_pos hfits

/-- What the machine is after a call with a range that it may not use. -/
structure Declined (m n : Machine QueueConsole) : Prop where
  answer : n.cpu.reg (register 0) = 0xFFFFFFFF
  console : n.console = m.console
  memory : n.memory = m.memory

theorem Calling.declined (h : m.Calling) (hrefused : m.Refused)
    (hasks : ¬ m.systemCall.AsksConsole m.memory) : Declined m m.step.2 := by
  obtain ⟨hanswer, hmemory, -⟩ := h.refused hrefused
  refine ⟨hanswer, ?_, hmemory⟩
  rw [h.done.2.console, console_callEffect hasks]
  rfl

theorem not_asksConsole_print (hnumber : m.systemCall.number = 2)
    (hrange : ¬ m.memory.Granted .reading m.systemCall.arg0 m.systemCall.arg1.toNat) :
    ¬ m.systemCall.AsksConsole m.memory := by
  rintro (⟨-, hgranted⟩ | ⟨hread, -⟩)
  · exact hrange hgranted
  · rw [hnumber] at hread
    exact absurd hread (by decide)

theorem not_asksConsole_read (hnumber : m.systemCall.number = 3)
    (hrange : ¬ m.memory.Granted .writing m.systemCall.arg0 m.systemCall.arg1.toNat) :
    ¬ m.systemCall.AsksConsole m.memory := by
  rintro (⟨hprint, -⟩ | ⟨-, hgranted⟩)
  · rw [hnumber] at hprint
    exact absurd hprint (by decide)
  · exact hrange hgranted

/-- What the machine is after a print. -/
structure Printed (m n : Machine QueueConsole) : Prop where
  answer : n.cpu.reg (register 0) = m.systemCall.arg1
  output : n.console.output.toList = m.console.output.toList ++
    m.memory.bytesAt m.systemCall.arg0.toNat m.systemCall.arg1.toNat
  input : n.console.input = m.console.input
  memory : n.memory = m.memory

theorem Calling.printed (h : m.Calling) (hnumber : m.systemCall.number = 2)
    (hrange : m.memory.Granted .reading m.systemCall.arg0 m.systemCall.arg1.toNat) :
    Printed m m.step.2 := by
  have hdone := h.done.2
  rw [callEffect_of_readable hnumber hrange] at hdone
  have hconsole : m.step.2.console = m.console.write
      (m.memory.bytesAt m.systemCall.arg0.toNat m.systemCall.arg1.toNat) := hdone.console
  refine ⟨hdone.reg _, ?_, ?_, hdone.memory_eq rfl⟩
  · rw [hconsole]
    exact Array.toList_appendList
  · rw [hconsole]
    rfl

/-- What the machine is after a read, for the line without its end. -/
structure ReadIn (body : List UInt8) (m n : Machine QueueConsole) : Prop where
  answer : (n.cpu.reg (register 0)).toNat =
    min body.length (min m.systemCall.arg1.toNat m.config.readLimit)
  memory : m.memory.Written n.memory m.systemCall.arg0.toNat
    (body.take (min body.length (min m.systemCall.arg1.toNat m.config.readLimit)))
  input : n.console.input = m.console.input.tail
  output : n.console.output = m.console.output

theorem Calling.readIn (h : m.Calling) (hnumber : m.systemCall.number = 3)
    (hrange : m.memory.Granted .writing m.systemCall.arg0 m.systemCall.arg1.toNat) :
    ReadIn (chomp (m.console.input.headD [])) m m.step.2 := by
  have hdone := h.done.2
  rw [callEffect_of_writable hnumber hrange] at hdone
  have hconsole : m.step.2.console = { m.console with input := m.console.input.tail } :=
    hdone.console
  have hlength : m.nextLine.length =
      min (chomp (m.console.input.headD [])).length
        (min m.systemCall.arg1.toNat m.config.readLimit) := by
    rw [nextLine, trimLine, List.length_take, Nat.min_comm, readBound]
  have hline : (chomp (m.console.input.headD [])).take
      (min (chomp (m.console.input.headD [])).length
        (min m.systemCall.arg1.toNat m.config.readLimit)) = m.nextLine := by
    rw [nextLine, trimLine, Nat.min_comm, ← List.take_eq_take_min, readBound]
  have hfits := hrange.1
  have hshort : m.nextLine.length ≤ m.systemCall.arg1.toNat := by
    rw [hlength]
    exact (Nat.min_le_right _ _).trans (Nat.min_le_left _ _)
  refine ⟨?_, ?_, ?_, ?_⟩
  · have hanswer : m.step.2.cpu.reg (register 0) = UInt32.ofNat m.nextLine.length := hdone.reg _
    rw [hanswer, UInt32.toNat_ofNat', ← hlength]
    omega
  · rw [hline]
    exact Effect.Brings.written hdone.toBrings rfl (by omega)
  · rw [hconsole]
  · rw [hconsole]

/-! ## The output of a run -/

/-- The bytes that the next call of `step` prints: the range of a print, if it may be
read. -/
def printedBytes (m : Machine QueueConsole) : List UInt8 :=
  if m.instruction = some (.bare .syscall) ∧ m.systemCall.number = 2 ∧
      m.memory.Granted .reading m.systemCall.arg0 m.systemCall.arg1.toNat then
    m.memory.bytesAt m.systemCall.arg0.toNat m.systemCall.arg1.toNat
  else []

/-- **A call of `step` adds to the output what it prints.** -/
theorem output_step (m : Machine QueueConsole) :
    m.step.2.console.output.toList = m.console.output.toList ++ m.printedBytes := by
  by_cases hcall : m.instruction = some (.bare .syscall)
  · have h : m.Calling := calling_iff.mpr hcall
    by_cases hprint : m.systemCall.number = 2 ∧
        m.memory.Granted .reading m.systemCall.arg0 m.systemCall.arg1.toNat
    · rw [printedBytes, if_pos ⟨hcall, hprint⟩]
      exact (h.printed hprint.1 hprint.2).output
    · rw [printedBytes, if_neg fun hall => hprint hall.2, List.append_nil]
      by_cases hread : m.systemCall.number = 3 ∧
          m.memory.Granted .writing m.systemCall.arg0 m.systemCall.arg1.toNat
      · rw [(h.readIn hread.1 hread.2).output]
      · rw [h.done.2.console, console_callEffect (not_or.mpr ⟨hprint, hread⟩)]
        rfl
  · rw [printedBytes, if_neg fun hall => hcall hall.1, List.append_nil, console_step hcall]

/-- Among the other operations only the one that changes the console changes it. -/
theorem console_perform {op : Operation QueueConsole} (hop : op.isStepping = false)
    (hconsole : ∀ console, op ≠ .setConsole console) :
    (m.perform op).2.console = m.console := by
  cases op with
  | step | steps | run => cases hop
  | setConsole console => exact absurd rfl (hconsole console)
  | load addr image =>
      rw [perform_load]
      split <;> rfl
  | write addr bytes =>
      rw [perform_write]
      split <;> rfl
  | setProtection page p =>
      simp only [perform]
      cases m.memory.setProtection page p <;> rfl
  | setReg reg value =>
      simp only [perform]
      split <;> rfl
  | addBreakpoint addr =>
      simp only [perform]
      split <;> rfl
  | _ => rfl

end Queue

end Machine

/-- The bytes that are printed in a call. -/
def Act.printedBytes : Act QueueConsole → List UInt8
  | .step on => on.printedBytes
  | .other _ => []

namespace Machine

/-- As long as the console is not changed for another, the output is what was there and
then what each call prints. -/
theorem output_after (m : Machine QueueConsole) {history : List (Operation QueueConsole)}
    (hsame : ∀ console, .setConsole console ∉ history) :
    (m.after history).console.output.toList =
      m.console.output.toList ++ (m.chronicle history).flatMap Act.printedBytes := by
  -- The output is followed through the chronicle up to a change of the console.
  have hkept := chronicle_keeps
    (P := fun acts n => (∀ console, .other (.setConsole console) ∉ acts) →
      n.console.output.toList = m.console.output.toList ++ acts.flatMap Act.printedBytes)
    ?_ ?_ history [] m ?_
  · exact hkept fun console hmem => hsame console (mem_of_mem_chronicle hmem)
  · intro acts n h hsame
    have hbefore := h fun console hmem => hsame console (List.mem_append_left _ hmem)
    rw [output_step, hbefore, List.flatMap_append, List.flatMap_singleton, List.append_assoc]
    rfl
  · intro acts n op hop h hsame
    have hbefore := h fun console hmem => hsame console (List.mem_append_left _ hmem)
    have hconsole : ∀ console, op ≠ .setConsole console := by
      rintro console rfl
      exact hsame console (List.mem_append_right _ (List.mem_singleton.mpr rfl))
    rw [console_perform hop hconsole, hbefore, List.flatMap_append, List.flatMap_singleton]
    exact (congrArg _ (List.append_nil _)).symm
  · intro _
    exact (List.append_nil _).symm

/-! ## Main result -/

/-- **Just the right bytes go over.**  A print adds its range to the output and
answers with its size, if all of the range may be read.  A read takes one line off the
queue, or none from an empty one, if all of the range may be written, also where the line
does not reach.  The line without its end, cut off at the smaller of the range and the
limit, is put at the start of the range, no other byte of memory changes, and the answer
is the number of bytes.  In any other case the answer is the failure value, and console
and memory stay as they are.

Whatever is done to the machine, short of giving it another console, its output then is
what it was and behind it all ranges that were printed, in their order. -/
theorem transfers_exactly (m : Machine QueueConsole) :
    (m.Calling → m.systemCall.number = 2 →
      if m.memory.Granted .reading m.systemCall.arg0 m.systemCall.arg1.toNat then
        Printed m m.step.2
      else Declined m m.step.2) ∧
    (m.Calling → m.systemCall.number = 3 →
      if m.memory.Granted .writing m.systemCall.arg0 m.systemCall.arg1.toNat then
        ∃ body, LineBody (m.console.input.headD []) body ∧ ReadIn body m m.step.2
      else Declined m m.step.2) ∧
    m.step.2.console.output.toList = m.console.output.toList ++ m.printedBytes ∧
    ∀ history : List (Operation QueueConsole), (∀ console, .setConsole console ∉ history) →
      (m.after history).console.output.toList =
        m.console.output.toList ++ (m.chronicle history).flatMap Act.printedBytes := by
  refine ⟨fun h hnumber => ?_, fun h hnumber => ?_, m.output_step,
    fun history hsame => m.output_after hsame⟩
  · split
    case isTrue hrange => exact h.printed hnumber hrange
    case isFalse hrange =>
      exact h.declined (.unreadable hnumber hrange) (not_asksConsole_print hnumber hrange)
  · split
    case isTrue hrange => exact ⟨_, lineBody_iff.mpr rfl, h.readIn hnumber hrange⟩
    case isFalse hrange =>
      exact h.declined (.unwritable hnumber hrange) (not_asksConsole_read hnumber hrange)

/-- A machine about to read up to four bytes over the boundary of two pages. -/
def crossing : Machine QueueConsole :=
  (Machine.new {} { input := [[104, 101, 121, 13, 10], [33]] }).after
    [.load 0 (LittleEndian.bytes 0xF0000000), .setReg 0 3, .setReg 1 0x40FE, .setReg 2 4]

/-- The line fits in without its end.  The next line is still there. -/
theorem transfers_exactly_crossing :
    crossing.Calling ∧ crossing.systemCall.number = 3 ∧
      (crossing.step.2.cpu.reg (register 0)).toNat = 3 ∧
      crossing.memory.Written crossing.step.2.memory 0x40FE [104, 101, 121] ∧
      crossing.step.2.console.input = [[33]] := by
  have hword : crossing.memory.wordAt crossing.cpu.pc.toNat = 0xF0000000 := by decide +kernel
  have hcalling : crossing.Calling :=
    .of_wordAt (by decide +kernel) (by decide +kernel) (by decide +kernel) (hword ▸ rfl)
  have hnumber : crossing.systemCall.number = 3 := by decide +kernel
  have hrange : crossing.memory.Granted .writing crossing.systemCall.arg0
      crossing.systemCall.arg1.toNat := by decide +kernel
  have haddr : crossing.systemCall.arg0.toNat = 0x40FE := by decide +kernel
  have hinput : crossing.console.input = [[104, 101, 121, 13, 10], [33]] := by decide +kernel
  have hbound : min crossing.systemCall.arg1.toNat crossing.config.readLimit = 4 := by
    decide +kernel
  have hchomp : chomp [104, 101, 121, 13, 10] = [104, 101, 121] := by decide
  obtain ⟨-, hreads, -⟩ := transfers_exactly crossing
  rw [if_pos hrange, hinput] at hreads
  obtain ⟨body, hbody, hread⟩ := hreads hcalling hnumber
  rw [lineBody_iff, List.headD_cons, hchomp] at hbody
  subst hbody
  have hanswer := hread.answer
  have hmemory := hread.memory
  rw [hbound] at hanswer hmemory
  rw [haddr] at hmemory
  refine ⟨hcalling, hnumber, hanswer, hmemory, ?_⟩
  rw [hread.input, hinput]
  rfl

end Machine

end SandboxCpu
