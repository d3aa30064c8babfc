import SandboxCpu.Proofs.Machine.Conformance

/-!
# Calls to the host

What a guest can bring about with the call instruction.  Each service has its own
part of the machine to change, besides register 0 for the answer; the call itself
never fails, and a call that the host refuses comes to the answer alone.

Nearly all of this is read off effects.  The effect of a call is that of its row
in the table of operations (`Calling.done`), and what such an effect can name
depends on nothing but the number of the call (`Effect.OfCall`).

That the console is left alone cannot be read off an effect, since a console that
is asked may well stay as it was.  It is said by putting another behaviour in its
place: a call that does not ask the console is the same call with every console
(`Calling.step_congr`).
-/

namespace SandboxCpu

open Word Isa

/-- The host turns to the console for the call: it is about to print or to read,
and the range of the call passes its check. -/
def SystemCall.AsksConsole (call : SystemCall) (m : Memory) : Prop :=
  (call.number = 2 ∧ m.Granted .reading call.arg0 call.arg1.toNat) ∨
    (call.number = 3 ∧ m.Granted .writing call.arg0 call.arg1.toNat)

/-! ## The effects of calls -/

namespace Isa

variable {κ : Type}

theorem Effect.Brings.memory_eq {e : Effect κ} {m n : Machine κ} (h : e.Brings m n)
    (hstore : e.store = none) : n.memory = m.memory := by
  refine Memory.ext_of_views (fun a => ?_) h.protectionAt
  rw [h.byteAt, byteAfter, hstore]

theorem Effect.Brings.timer_eq {e : Effect κ} {m n : Machine κ} (h : e.Brings m n)
    (hsleeps : e.sleeps = 0) : n.timer = m.timer := by
  have hticks : n.timer.ticks = m.timer.ticks := by
    rw [h.timer, hsleeps]
    exact UInt64.add_zero _
  exact congrArg Timer.mk hticks

/-- What an effect leaves alone that is the effect of the call of a number. -/
structure Effect.OfCall (number : UInt32) (e : Effect κ) : Prop where
  /-- Register 0 has the answer, and no other register changes. -/
  reg : ∀ c r, r ≠ register 0 → e.regAfter c r = c.reg r
  flags : e.flags = .keep
  sp : e.sp = none
  target : e.target = none
  halts : e.halts = true ↔ number = 1
  exitCode : number ≠ 1 → e.exitCode = none
  console : number ≠ 2 → number ≠ 3 → e.console = none
  store : number ≠ 3 → e.store = none
  sleeps : number ≠ 5 → e.sleeps = 0
  heap : number ≠ 6 → e.heap = none

namespace Effect.OfCall

variable {number : UInt32} {e : Effect κ}

/-- An answer names register 0 and nothing else. -/
theorem answer (hnumber : number ≠ 1) (value : UInt32) :
    OfCall number (answer value : Effect κ) where
  reg := fun _ _ hr => if_neg hr.symm
  flags := rfl
  sp := rfl
  target := rfl
  halts := by simp only [hnumber, Isa.answer, copy, Bool.false_eq_true]
  exitCode := fun _ => rfl
  console := fun _ _ => rfl
  store := fun _ => rfl
  sleeps := fun _ => rfl
  heap := fun _ => rfl

/-- Stopping the guest names its exit code too. -/
theorem exit (code : Int32) :
    OfCall 1 ({ Isa.answer 0 with exitCode := some code, halts := true } : Effect κ) where
  reg := fun _ _ hr => if_neg hr.symm
  flags := rfl
  sp := rfl
  target := rfl
  halts := iff_of_true rfl rfl
  exitCode := fun h => (h rfl).elim
  console := fun _ _ => rfl
  store := fun _ => rfl
  sleeps := fun _ => rfl
  heap := fun _ => rfl

theorem leaving (h : OfCall number e) (hnumber : number = 2 ∨ number = 3) (console : κ) :
    OfCall number (e.leaving console) :=
  { h with console := fun h2 h3 => (hnumber.elim h2 h3).elim }

theorem storing (h : OfCall number e) (hnumber : number = 3) (addr : UInt32)
    (bytes : List UInt8) : OfCall number { e with store := some (addr, bytes) } :=
  { h with store := fun h3 => (h3 hnumber).elim }

variable [Console κ]

theorem print (m : Machine κ) (addr size : UInt32) : OfCall 2 (print m addr size) := by
  unfold Isa.print
  split
  · split
    · exact (answer (by decide) size).leaving (.inl rfl) _
    · exact (answer (by decide) _).leaving (.inl rfl) _
  · exact answer (by decide) _

omit [Console κ] in
theorem storeLine (m : Machine κ) (addr : UInt32) (line : List UInt8) (console : κ) :
    OfCall 3 (storeLine m addr line console) := by
  unfold Isa.storeLine
  split
  · exact ((answer (by decide) _).storing rfl addr line).leaving (.inr rfl) console
  · exact (answer (by decide) _).leaving (.inr rfl) console

theorem readLine (m : Machine κ) (addr size : UInt32) : OfCall 3 (readLine m addr size) := by
  unfold Isa.readLine
  dsimp only
  split
  · split
    · exact ((answer (by decide) _).storing rfl addr _).leaving (.inr rfl) _
    · exact (answer (by decide) _).leaving (.inr rfl) _
  · exact answer (by decide) _

theorem receiveLine (m : Machine κ) (addr size : UInt32) :
    OfCall 3 (receiveLine m addr size) := by
  unfold Isa.receiveLine
  split
  · split
    · exact storeLine m addr _ _
    · exact (answer (by decide) _).leaving (.inr rfl) _
  · exact answer (by decide) _

omit [Console κ] in
theorem allocate (m : Machine κ) (size : UInt32) : OfCall 6 (allocate m size) := by
  unfold Isa.allocate
  dsimp only
  split
  · exact { answer (by decide) (plus m.heap.base m.heap.used.toNat) with
      heap := fun h => (h rfl).elim }
  · exact answer (by decide) 0

/-- Every row of a call has an effect of its number, -/
theorem service (m : Machine κ) (number r1 r2 : UInt32) :
    OfCall number (service m number r1 r2) := by
  unfold Isa.service
  split
  · rename_i hnumber
    subst hnumber
    exact exit _
  rename_i hexit
  split
  · rename_i hnumber
    subst hnumber
    exact print m r1 r2
  split
  · rename_i hnumber
    subst hnumber
    exact readLine m r1 r2
  split
  · exact answer hexit _
  split
  · rename_i hnumber
    subst hnumber
    exact { answer hexit 0 with sleeps := fun h => (h rfl).elim }
  split
  · rename_i hnumber
    subst hnumber
    exact allocate m r1
  split
  · exact answer hexit 0
  · exact answer hexit _

/-- and so has every call as the host serves it. -/
theorem provided (m : Machine κ) (call : SystemCall) : OfCall call.number (provided m call) := by
  unfold Isa.provided
  split
  · rename_i hnumber
    rw [hnumber]
    exact receiveLine m _ _
  · exact service m _ _ _

end Effect.OfCall

end Isa

namespace Machine

variable {κ : Type} {m : Machine κ}

/-- A machine that is about to execute the call instruction: it has not stopped, no
breakpoint holds it, and what it fetches is that instruction. -/
structure Calling (m : Machine κ) : Prop where
  halted : m.cpu.halted = false
  pauses : m.pauses = false
  instruction : ∃ word,
    m.fetch m.cpu.pc = .ok word ∧ Instruction.decode word = .ok (.bare .syscall)

/-- The word at the program counter, which may be fetched, is that of the call
instruction. -/
theorem Calling.of_wordAt (hhalted : m.cpu.halted = false) (hpauses : m.pauses = false)
    (hgranted : m.memory.Granted .fetching m.cpu.pc 4)
    (hdecode : Instruction.decode (m.memory.wordAt m.cpu.pc.toNat) = .ok (.bare .syscall)) :
    m.Calling := by
  refine ⟨hhalted, hpauses, _, ?_, hdecode⟩
  rw [fetch, Memory.readWord_eq_ok_iff.mpr ⟨Memory.allows_iff_granted.mpr hgranted, rfl⟩]

/-! ## The step of a call -/

section Step

variable [Console κ]

/-- The attempt at the call instruction succeeds, whatever the host makes of the
call. -/
theorem attempt_call {word : UInt32} (hfetch : m.fetch m.cpu.pc = .ok word)
    (hdecode : Instruction.decode word = .ok (.bare .syscall)) :
    m.released.attempt m.cpu.pc =
      .ok (word, if m.released.callHost.cpu.halted then .halt else .next,
        m.released.callHost) :=
  attempt_eq_execute (m := m.released) (readWord_of_fetch hfetch) hdecode

/-- What the call in the machine's registers does. -/
def callEffect (m : Machine κ) : Effect κ := provided m m.systemCall

theorem ofCall_callEffect (m : Machine κ) : m.callEffect.OfCall m.systemCall.number :=
  .provided m m.systemCall

/-- The step of a call does what the call does, and nothing else. -/
theorem Calling.done (h : m.Calling) :
    m.step.1 = .ok (m.callEffect.outcome m.debugger) ∧ m.callEffect.Done m m.step.2 := by
  obtain ⟨word, hfetch, hdecode⟩ := h.instruction
  have hattempt := attempt_call hfetch hdecode
  have hexecuted : Executed m.callEffect m.released
      (if m.released.callHost.cpu.halted then .halt else .next, m.released.callHost) :=
    callHost_conforms (m := m.released) h.halted
  rw [step_of_success h.halted h.pauses hattempt]
  constructor
  · rw [retire_fst, isSingleStep_attempt hattempt]
    simp only [hexecuted.stops]
    rfl
  · exact (Executed.of_debugger m.debugger.counters_release hexecuted).done
      (architecture_retire _ m.cpu.pc word _)

end Step

/-! ## Refusals -/

section Refusals

variable [Console κ]

/-- Why the host refuses the call in the machine's registers. -/
inductive Refused (m : Machine κ) : Prop
  /-- What is to be printed may not be read. -/
  | unreadable (hnumber : m.systemCall.number = 2)
      (hrange : ¬ m.memory.Granted .reading m.systemCall.arg0 m.systemCall.arg1.toNat)
  /-- The console does not take it. -/
  | unprinted (hnumber : m.systemCall.number = 2)
      (hrange : m.memory.Granted .reading m.systemCall.arg0 m.systemCall.arg1.toNat)
      {e : ConsoleError} {console : κ}
      (hconsole : Console.write m.console
        (m.memory.bytesAt m.systemCall.arg0.toNat m.systemCall.arg1.toNat) = (.error e, console))
  /-- Where the line should go may not be written. -/
  | unwritable (hnumber : m.systemCall.number = 3)
      (hrange : ¬ m.memory.Granted .writing m.systemCall.arg0 m.systemCall.arg1.toNat)
  /-- The console gives no line. -/
  | unread (hnumber : m.systemCall.number = 3)
      (hrange : m.memory.Granted .writing m.systemCall.arg0 m.systemCall.arg1.toNat)
      {e : ConsoleError} {console : κ}
      (hconsole : Console.readLine m.console m.readBound = (.error e, console))
  /-- The line is so long that it may not be written. -/
  | unstored (hnumber : m.systemCall.number = 3)
      (hrange : m.memory.Granted .writing m.systemCall.arg0 m.systemCall.arg1.toNat)
      {line : List UInt8} {console : κ}
      (hconsole : Console.readLine m.console m.readBound = (.ok line, console))
      (hline : ¬ m.memory.Granted .writing m.systemCall.arg0 line.length)
  /-- The number stands for no service, or for one that does not exist yet. -/
  | unserved (hnumber : ¬ (1 ≤ m.systemCall.number ∧ m.systemCall.number ≤ 7))

theorem serve_print {call : SystemCall} (m : Machine κ) (hnumber : call.number = 2) :
    m.serve call = m.printCall call.arg0 call.arg1 := by
  rw [serve, hnumber]
  rfl

theorem serve_read {call : SystemCall} (m : Machine κ) (hnumber : call.number = 3) :
    m.serve call = m.readCall call.arg0 call.arg1 := by
  rw [serve, hnumber]
  rfl

theorem callEffect_print (m : Machine κ) (hnumber : m.systemCall.number = 2) :
    m.callEffect = print m m.systemCall.arg0 m.systemCall.arg1 := by
  rw [callEffect, provided, hnumber]
  rfl

theorem callEffect_read (m : Machine κ) (hnumber : m.systemCall.number = 3) :
    m.callEffect = receiveLine m m.systemCall.arg0 m.systemCall.arg1 := by
  rw [callEffect, provided, if_pos hnumber]

/-- A range that may not be read is not printed. -/
theorem printCall_of_not_granted {addr size : UInt32}
    (h : ¬ m.memory.Granted .reading addr size.toNat) :
    m.printCall addr size =
      (.error (.memory (.accessViolation addr size.toNat .reading)), m) := by
  rw [printCall, Memory.read, if_neg (mt Memory.allows_iff_granted.mp h)]

/-- Nothing is read into a range that may not be written. -/
theorem readCall_of_not_granted {addr size : UInt32}
    (h : ¬ m.memory.Granted .writing addr size.toNat) :
    m.readCall addr size =
      (.error (.memory (.accessViolation addr size.toNat .writing)), m) := by
  rw [readCall, if_neg (mt Memory.allows_iff_granted.mp h)]

/-- A refused call fails when it is served, and its effect is the answer alone, but
for what the console makes of being asked. -/
theorem Refused.fails (h : m.Refused) :
    (∃ e, (m.serve m.systemCall).1 = .error e) ∧
      ∃ console, m.callEffect = { (Isa.failure : Effect κ) with console := console } := by
  cases h with
  | unreadable hnumber hrange =>
      rw [m.serve_print hnumber, m.callEffect_print hnumber, printCall_of_not_granted hrange,
        print, if_neg hrange]
      exact ⟨⟨_, rfl⟩, none, rfl⟩
  | unprinted hnumber hrange hconsole =>
      have hallows := Memory.allows_iff_granted.mpr hrange
      rw [m.serve_print hnumber, m.callEffect_print hnumber, printCall, Memory.read,
        if_pos hallows, print, if_pos hrange]
      change Console.write m.console (List.map _ _) = _ at hconsole
      simp only [Memory.bytesAt, hconsole]
      exact ⟨⟨_, rfl⟩, _, rfl⟩
  | unwritable hnumber hrange =>
      rw [m.serve_read hnumber, m.callEffect_read hnumber, readCall_of_not_granted hrange,
        receiveLine, if_neg hrange]
      exact ⟨⟨_, rfl⟩, none, rfl⟩
  | unread hnumber hrange hconsole =>
      have hallows := Memory.allows_iff_granted.mpr hrange
      rw [readBound] at hconsole
      rw [m.serve_read hnumber, m.callEffect_read hnumber, readCall, if_pos hallows, receiveLine,
        if_pos hrange, hconsole]
      exact ⟨⟨_, rfl⟩, _, rfl⟩
  | unstored hnumber hrange hconsole hline =>
      have hallows := Memory.allows_iff_granted.mpr hrange
      have hwrite := mt Memory.allows_iff_granted.mp hline
      rw [readBound] at hconsole
      rw [m.serve_read hnumber, m.callEffect_read hnumber, readCall, if_pos hallows, receiveLine,
        if_pos hrange, hconsole]
      dsimp only
      rw [Memory.write, if_neg hwrite, storeLine, if_neg hline]
      exact ⟨⟨_, rfl⟩, _, rfl⟩
  | unserved hnumber =>
      have hne : ∀ k : UInt32, 1 ≤ k → k ≤ 7 → m.systemCall.number ≠ k := by
        rintro k hlo hhi rfl
        exact hnumber ⟨hlo, hhi⟩
      have heffect : m.callEffect = Isa.failure := by
        simp only [callEffect, provided, service, hne, UInt32.reduceLE, ↓reduceIte]
      refine ⟨?_, none, heffect⟩
      simp only [serve, hne, UInt32.reduceLE, ↓reduceIte]
      split <;> exact ⟨_, rfl⟩

theorem refused_of_printCall {e : SystemCallError} (hnumber : m.systemCall.number = 2)
    (h : (m.printCall m.systemCall.arg0 m.systemCall.arg1).1 = .error e) : m.Refused := by
  by_cases hrange : m.memory.Granted .reading m.systemCall.arg0 m.systemCall.arg1.toNat
  · rw [printCall, Memory.read, if_pos (Memory.allows_iff_granted.mpr hrange)] at h
    dsimp only at h
    split at h
    · rename_i hconsole
      exact .unprinted hnumber hrange hconsole
    · cases h
  · exact .unreadable hnumber hrange

theorem refused_of_readCall {e : SystemCallError} (hnumber : m.systemCall.number = 3)
    (h : (m.readCall m.systemCall.arg0 m.systemCall.arg1).1 = .error e) : m.Refused := by
  by_cases hrange : m.memory.Granted .writing m.systemCall.arg0 m.systemCall.arg1.toNat
  · rw [readCall, if_pos (Memory.allows_iff_granted.mpr hrange)] at h
    split at h
    · rename_i hconsole
      exact .unread hnumber hrange hconsole
    · rename_i line console hconsole
      by_cases hline : m.memory.Granted .writing m.systemCall.arg0 line.length
      · rw [Memory.write, if_pos (Memory.allows_iff_granted.mpr hline)] at h
        cases h
      · exact .unstored hnumber hrange hconsole hline
  · exact .unwritable hnumber hrange

theorem served_cases {number : UInt32} (h : 1 ≤ number ∧ number ≤ 7) :
    number = 1 ∨ number = 2 ∨ number = 3 ∨ number = 4 ∨ number = 5 ∨ number = 6 ∨
      number = 7 := by
  simp only [UInt32.le_iff_toNat_le, ← UInt32.toNat_inj, UInt32.reduceToNat] at h ⊢
  omega

/-- The host refuses exactly the calls that fail when they are served. -/
theorem serve_fails_iff : (∃ e, (m.serve m.systemCall).1 = .error e) ↔ m.Refused := by
  refine ⟨fun ⟨e, h⟩ => ?_, fun h => h.fails.1⟩
  by_cases hserved : 1 ≤ m.systemCall.number ∧ m.systemCall.number ≤ 7
  · obtain hnumber | hnumber | hnumber | hnumber | hnumber | hnumber | hnumber :=
      served_cases hserved
    case inr.inl =>
      rw [m.serve_print hnumber] at h
      exact refused_of_printCall hnumber h
    case inr.inr.inl =>
      rw [m.serve_read hnumber] at h
      exact refused_of_readCall hnumber h
    all_goals
      rw [serve, hnumber] at h
      cases h
  · exact .unserved hserved

end Refusals

/-! ## The console that is not asked -/

/-- A call that does not ask the console is served in the same way by every
console. -/
theorem serve_congr (c c' : Console κ) {call : SystemCall}
    (h : ¬ call.AsksConsole m.memory) : @serve κ c m call = @serve κ c' m call := by
  simp only [SystemCall.AsksConsole, not_or, not_and] at h
  unfold serve
  split
  · rfl
  split
  · rename_i hnumber
    rw [@printCall_of_not_granted κ _ c _ _ (h.1 hnumber),
      @printCall_of_not_granted κ _ c' _ _ (h.1 hnumber)]
  split
  · rename_i hnumber
    rw [@readCall_of_not_granted κ _ c _ _ (h.2 hnumber),
      @readCall_of_not_granted κ _ c' _ _ (h.2 hnumber)]
  · rfl

/-- So its step is the same with every console. -/
theorem Calling.step_congr (h : m.Calling) (c c' : Console κ)
    (hasks : ¬ m.systemCall.AsksConsole m.memory) : @step κ c m = @step κ c' m := by
  obtain ⟨word, hfetch, hdecode⟩ := h.instruction
  have hcall : @callHost κ c m.released = @callHost κ c' m.released :=
    congrArg answered (serve_congr (m := { m.released with
      debugger := m.released.debugger.record (.syscall m.systemCall.number) }) c c' hasks)
  rw [@step_of_success κ c _ _ h.halted h.pauses _ _ (@attempt_call κ m c _ hfetch hdecode),
    @step_of_success κ c' _ _ h.halted h.pauses _ _ (@attempt_call κ m c' _ hfetch hdecode),
    hcall]

/-- Nor does such a call leave anything at the console. -/
theorem console_callEffect [Console κ] (hasks : ¬ m.systemCall.AsksConsole m.memory) :
    m.callEffect.console = none := by
  simp only [SystemCall.AsksConsole, not_or, not_and] at hasks
  by_cases hprint : m.systemCall.number = 2
  · rw [m.callEffect_print hprint, print, if_neg (hasks.1 hprint)]
    rfl
  by_cases hread : m.systemCall.number = 3
  · rw [m.callEffect_read hread, receiveLine, if_neg (hasks.2 hread)]
    rfl
  · exact m.ofCall_callEffect.console hprint hread

/-! ## Main result -/

section Isolation

variable [Console κ]

/-- What a call of a number leaves alone, and that execution goes on behind it. -/
structure Isolated (number : UInt32) (m n : Machine κ) : Prop where
  pc : n.cpu.pc = m.cpu.pc + 4
  reg : ∀ r, r ≠ register 0 → n.cpu.reg r = m.cpu.reg r
  flags : n.cpu.flags = m.cpu.flags
  sp : n.cpu.sp = m.cpu.sp
  fp : n.cpu.fp = m.cpu.fp
  protection : ∀ page, n.memory.protection page = m.memory.protection page
  setting : n.debugger.setting = m.debugger.setting
  exitCode : number ≠ 1 → n.exitCode = m.exitCode
  halted : number ≠ 1 → n.cpu.halted = m.cpu.halted
  console : number ≠ 2 → number ≠ 3 → n.console = m.console
  memory : number ≠ 3 → n.memory = m.memory
  timer : number ≠ 5 → n.timer = m.timer
  cycles : number ≠ 5 → n.debugger.cycles = m.debugger.cycles + 1
  heap : number ≠ 6 → n.heap = m.heap

theorem Calling.isolated (h : m.Calling) : Isolated m.systemCall.number m m.step.2 := by
  have hdone := h.done.2
  have hcall := m.ofCall_callEffect
  have hconfined := Confined.step m
  constructor
  case pc => rw [hdone.pc, hcall.target, Option.getD_none, plus_four]
  case reg =>
    intro r hr
    rw [hdone.reg, hcall.reg _ r hr]
  case flags => rw [hdone.flags, hcall.flags, FlagRule.after]
  case sp => rw [hdone.sp, hcall.sp, Option.getD_none]
  case fp => exact hconfined.fp
  case protection => exact Memory.protection_congr hconfined.memory.protectionAt_eq
  case setting => exact hconfined.setting
  case exitCode =>
    intro hnumber
    rw [hdone.exitCode, hcall.exitCode hnumber, Option.getD_none]
  case halted =>
    intro hnumber
    have hhalts : m.callEffect.halts = false := by
      rw [Bool.eq_false_iff]
      exact mt hcall.halts.mp hnumber
    rw [hdone.halted, hhalts, Bool.or_false]
  case console =>
    intro hprint hread
    rw [hdone.console, hcall.console hprint hread, Option.getD_none]
  case memory => exact fun hnumber => hdone.memory_eq (hcall.store hnumber)
  case timer => exact fun hnumber => hdone.timer_eq (hcall.sleeps hnumber)
  case cycles =>
    intro hnumber
    rw [hdone.cycles, hcall.sleeps hnumber]
    exact congrArg (· + 1) (UInt64.add_zero _)
  case heap =>
    intro hnumber
    rw [hdone.heap, hcall.heap hnumber, Option.getD_none]

/-- What a refused call leaves besides its answer. -/
theorem Calling.refused (h : m.Calling) (hrefused : m.Refused) :
    m.step.2.cpu.reg (register 0) = 0xFFFFFFFF ∧
      m.step.2.memory = m.memory ∧ m.step.2.heap = m.heap ∧ m.step.2.timer = m.timer ∧
      m.step.2.exitCode = m.exitCode ∧ m.step.2.cpu.halted = m.cpu.halted := by
  obtain ⟨-, console, heffect⟩ := hrefused.fails
  have hdone := h.done.2
  rw [heffect] at hdone
  refine ⟨hdone.reg _, hdone.memory_eq rfl, hdone.heap, hdone.timer_eq rfl, hdone.exitCode, ?_⟩
  rw [hdone.halted]
  exact Bool.or_false _

/-- **Calls to the host are isolated.**  When a machine executes the call
instruction, the step never fails.  Execution goes on behind the instruction;
flags, stack and frame pointer, the registers but the first, the page table and
the debugger's settings stay as they are, and each other part of the machine can
change only with the numbers of the services that are about it.

A call that the host refuses leaves the failure value in register 0 and, but for
the console, nothing else.  The console is not asked unless a range of memory has
passed its check: otherwise it stays as it is, and the step would be the same with
any other behaviour of the console. -/
theorem call_isolated (h : m.Calling) :
    m.step.1 = .ok (if m.systemCall.number = 1 then .halted
      else if m.debugger.isSingleStep then .paused else .ongoing) ∧
    Isolated m.systemCall.number m m.step.2 ∧
    ((∃ e, (m.serve m.systemCall).1 = .error e) ↔ m.Refused) ∧
    (m.Refused →
      m.step.2.cpu.reg (register 0) = 0xFFFFFFFF ∧
      m.step.2.memory = m.memory ∧
      m.step.2.heap = m.heap ∧
      m.step.2.timer = m.timer ∧
      m.step.2.exitCode = m.exitCode ∧
      m.step.2.cpu.halted = m.cpu.halted) ∧
    (¬ m.systemCall.AsksConsole m.memory →
      m.step.2.console = m.console ∧ ∀ other : Console κ, @step κ other m = m.step) := by
  obtain ⟨houtcome, hdone⟩ := h.done
  refine ⟨?_, h.isolated, serve_fails_iff, h.refused, fun hasks => ⟨?_, fun other => ?_⟩⟩
  · rw [houtcome, Effect.outcome]
    simp only [m.ofCall_callEffect.halts]
  · rw [hdone.console, console_callEffect hasks, Option.getD_none]
  · exact h.step_congr other _ hasks

end Isolation

/-- A machine about to read a line into the page that its own code is on. -/
def barred : Machine QueueConsole :=
  (Machine.new {} { input := [[104, 105]] }).after
    [.load 0 (LittleEndian.bytes 0xF0000000), .setReg 0 3, .setReg 1 0x10, .setReg 2 4]

/-- The call is refused, and the line is still there to be read. -/
theorem call_isolated_barred :
    barred.Calling ∧ barred.Refused ∧ barred.step.1 = .ok .ongoing ∧
      barred.step.2.cpu.reg (register 0) = 0xFFFFFFFF ∧ barred.step.2.cpu.pc = 4 ∧
      barred.step.2.memory = barred.memory ∧
      barred.step.2.console.input = [[104, 105]] := by
  have hword : barred.memory.wordAt barred.cpu.pc.toNat = 0xF0000000 := by decide +kernel
  have hcalling : barred.Calling :=
    .of_wordAt (by decide +kernel) (by decide +kernel) (by decide +kernel) (hword ▸ rfl)
  have hnumber : barred.systemCall.number = 3 := by decide +kernel
  have hrange : ¬ barred.memory.Granted .writing barred.systemCall.arg0
      barred.systemCall.arg1.toNat := by decide +kernel
  have hrefused : barred.Refused := .unwritable hnumber hrange
  have hasks : ¬ barred.systemCall.AsksConsole barred.memory := by
    rintro (⟨hprint, -⟩ | ⟨-, hgranted⟩)
    · rw [hnumber] at hprint
      exact absurd hprint (by decide)
    · exact hrange hgranted
  obtain ⟨houtcome, hisolated, -, hleaves, hsilent⟩ := call_isolated hcalling
  obtain ⟨hanswer, hmemory, -⟩ := hleaves hrefused
  refine ⟨hcalling, hrefused, ?_, hanswer, ?_, hmemory, ?_⟩
  · rw [houtcome]
    exact congrArg Except.ok (by decide +kernel)
  · rw [hisolated.pc]
    decide +kernel
  · rw [(hsilent hasks).1]
    decide +kernel

end Machine

end SandboxCpu
