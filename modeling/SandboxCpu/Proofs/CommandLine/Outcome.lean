import Mathlib.Data.List.Dedup
import SandboxCpu.CommandLine.Session
import SandboxCpu.Proofs.CommandLine.Turns
import SandboxCpu.Proofs.Machine.History

/-!
# What a session comes to

The work of a session leaves a record of output and journal, but what it comes
to does not depend on the record: `Yields work x` says that it comes to `x`
whatever was recorded before.  So the journal, whose level the surroundings
choose, has no part in the outcome.

Setting the debugger up cannot fail as long as the different breakpoints asked
for find room (`yields_debuggerSetup`), and it leaves the architecture alone.
The rest is the loop of turns: the session comes to what the plain machine comes
to within the budget (`session_outcome`), which is the same however the debugger
is set.  The budget is the number of steps that the arguments allow, and the greatest
number that can be counted if they say nothing of it.
-/

namespace SandboxCpu.CommandLine

/-! ## Work apart from its record -/

/-- What the work comes to, whatever is on record. -/
def Yields {α : Type} (work : Work α) (x : Except Failure α) : Prop :=
  ∀ record, (work.run record).1 = x

namespace Yields

variable {α β : Type} {y : Except Failure β} {a : α} {w : Work α} {next : α → Work β}

theorem pure (a : α) : Yields (Pure.pure a) (.ok a) := fun _ => rfl

theorem failing (f : Failure) : Yields (failing f : Work α) (.error f) := fun _ => rfl

theorem note (entries : Array Journal.Entry) : Yields (note entries) (.ok ()) := fun _ => rfl

theorem put (bytes : Array UInt8) : Yields (put bytes) (.ok ()) := fun _ => rfl

theorem bind (hw : Yields w (.ok a)) (hnext : Yields (next a) y) : Yields (w >>= next) y := by
  intro record
  have hrun := hw record
  change (StateT.bind w.run (ExceptT.bindCont next) record).1 = y
  unfold StateT.bind
  generalize w.run record = r at hrun
  obtain ⟨answer, later⟩ := r
  cases hrun
  exact hnext later

end Yields

/-! ## Setting the debugger up -/

/-- The notes on an operation do not matter to it. -/
theorem yields_operate (s : Surroundings) (m : Machine StreamConsole)
    (op : Operation StreamConsole) :
    Yields (operate s m op) (match m.perform op with
      | (.breakpointsFull e, _) => .error (.breakpointsFull e)
      | (_, m') => .ok m') := by
  have hanswer : Yields (match m.perform op with
      | (.breakpointsFull e, _) => failing (.breakpointsFull e)
      | (_, m') => (return m' : Work (Machine StreamConsole))) (match m.perform op with
      | (.breakpointsFull e, _) => .error (.breakpointsFull e)
      | (_, m') => .ok m') := by
    split <;> intro record <;> rfl
  unfold operate
  cases s.level with
  | none => exact hanswer
  | some level => exact Yields.bind (.note _) hanswer

/-- The breakpoints are different, are among those given, and all of those would
find room. -/
structure Fits (given : List UInt32) (d : Debugger) : Prop where
  nodup : d.breakpoints.Nodup
  among : ∀ a ∈ d.breakpoints, a ∈ given
  room : given.dedup.length ≤ d.capacity

/-- One of the given breakpoints can still be added. -/
theorem Fits.add {given : List UInt32} {d : Debugger} (h : Fits given d) {addr : UInt32}
    (haddr : addr ∈ given) :
    ∃ bs, d.addBreakpoint addr = .ok { d with breakpoints := bs } ∧
      Fits given { d with breakpoints := bs } := by
  unfold Debugger.addBreakpoint
  by_cases hmem : addr ∈ d.breakpoints
  · rw [if_pos (List.contains_iff_mem.mpr hmem)]
    exact ⟨d.breakpoints, rfl, h⟩
  · rw [if_neg fun hc => hmem (List.contains_iff_mem.mp hc)]
    have hnew : (d.breakpoints ++ [addr]).Nodup :=
      List.nodup_append.mpr ⟨h.nodup, List.nodup_singleton addr, fun a ha b hb heq =>
        hmem (List.mem_singleton.mp hb ▸ heq ▸ ha)⟩
    have hgiven : ∀ a ∈ d.breakpoints ++ [addr], a ∈ given := by
      intro a ha
      obtain ha | ha := List.mem_append.mp ha
      · exact h.among a ha
      · exact List.mem_singleton.mp ha ▸ haddr
    -- The new one and the old ones are different and all given, so there is room.
    have hlt : ¬ d.capacity ≤ d.breakpoints.length := by
      have hsub : d.breakpoints ++ [addr] ⊆ given.dedup :=
        fun a ha => List.mem_dedup.mpr (hgiven a ha)
      have hle := hnew.length_le_of_subset hsub
      have hroom := h.room
      rw [List.length_append, List.length_singleton] at hle
      omega
    rw [if_neg hlt]
    exact ⟨d.breakpoints ++ [addr], rfl, hnew, hgiven, h.room⟩

/-- Given breakpoints are added one after the other, and nothing else happens. -/
theorem yields_addBreakpoints (s : Surroundings) {given : List UInt32} (addrs : List UInt32) :
    ∀ m : Machine StreamConsole, (∀ a ∈ addrs, a ∈ given) → Fits given m.debugger →
      ∃ v, Yields ((addrs.map Operation.addBreakpoint).foldlM (operate s) m) (.ok v) ∧
        v.architecture = m.architecture := by
  induction addrs with
  | nil =>
      intro m _ _
      exact ⟨m, .pure m, rfl⟩
  | cons addr addrs ih =>
      intro m haddrs hfits
      obtain ⟨bs, hadd, hfits'⟩ := hfits.add (haddrs addr List.mem_cons_self)
      have hoperate := yields_operate s m (.addBreakpoint addr)
      simp only [Machine.perform, hadd] at hoperate
      obtain ⟨v, hv, hsame⟩ :=
        ih { m with debugger := { m.debugger with breakpoints := bs } }
          (fun a ha => haddrs a (List.mem_cons_of_mem _ ha)) hfits'
      exact ⟨v, hoperate.bind hv, hsame⟩

/-- Setting the debugger up succeeds when its breakpoints find room. -/
theorem yields_debuggerSetup (s : Surroundings) (args : Arguments) {m : Machine StreamConsole}
    (hfresh : m.debugger.breakpoints = [])
    (hroom : args.breakpoints.dedup.length ≤ m.debugger.capacity) :
    ∃ v, Yields ((debuggerSetup args).foldlM (operate s) m) (.ok v) ∧
      v.architecture = m.architecture := by
  let d := (m.debugger.setEnabled true).setSingleStep args.singleStep
  have henabled := yields_operate s m (.setDebugger true)
  have hsingle := yields_operate s { m with debugger := m.debugger.setEnabled true }
    (.setSingleStep args.singleStep)
  have hfits : Fits args.breakpoints d := by
    refine ⟨?_, ?_, hroom⟩
    · change m.debugger.breakpoints.Nodup
      rw [hfresh]
      exact List.nodup_nil
    · change ∀ a ∈ m.debugger.breakpoints, _
      rw [hfresh]
      exact fun a ha => absurd ha List.not_mem_nil
  obtain ⟨v, hv, hsame⟩ :=
    yields_addBreakpoints s args.breakpoints { m with debugger := d } (fun _ ha => ha) hfits
  exact ⟨v, henabled.bind (hsingle.bind hv), hsame⟩

/-! ## From the arguments to the outcome -/

/-- What a session comes to after a verdict. -/
def Verdict.outcome (budget : UInt64) : Verdict → Except Failure Int32
  | .exited code => .ok code
  | .faulted f => .error (.faulted f)
  | .exhausted => .error (.exhausted budget)

theorem yields_findImage {s : Surroundings} {path : String} {hex : Bool} {image : List UInt8}
    (h : s.files.image path (if hex then .hexText else .raw) = .ok image) :
    Yields (findImage s path hex) (.ok image) := by
  unfold findImage
  rw [h]
  refine Yields.bind (.note _) ?_
  dsimp only
  split
  · exact Yields.bind (.note _) (.pure image)
  · exact .pure image

/-- What execution comes to is its verdict. -/
theorem yields_executeProgram (s : Surroundings) {budget : UInt64} {m : Machine StreamConsole}
    {verdict : Verdict} (h : (execute (·.output.size) budget m).2.1 = some verdict) :
    Yields (executeProgram s budget m) (verdict.outcome budget) := by
  unfold executeProgram
  generalize execute (·.output.size) budget m = r at h
  obtain ⟨pauses, answer, last⟩ := r
  cases h
  cases s.level
  case' some level => refine Yields.bind (.note _) ?_
  all_goals
    refine Yields.bind (.put _) ?_
    cases verdict with
    | exited code => exact Yields.bind (.note _) (.pure code)
    | faulted f => exact Yields.bind (.note _) (.failing _)
    | exhausted => exact Yields.bind (.note _) (.failing _)

/-- The machine of a session has the architecture of the plain one, if the
breakpoints find room. -/
theorem yields_prepare {s : Surroundings} {args : Arguments} {config : Config}
    {image : List UInt8} {p : Machine StreamConsole}
    (hload : (Machine.new config { input := s.input }).loadProgram config.loadAddr image = .ok p)
    (hroom : args.debug = true →
      args.breakpoints.dedup.length ≤ config.breakpointCapacity) :
    ∃ v, Yields (prepare s args config image) (.ok v) ∧ v.architecture = p.architecture := by
  have hplain := (Machine.loadProgram_eq_ok_iff.mp hload).2
  unfold prepare
  simp only [hload]
  cases hdebug : args.debug with
  | false => exact ⟨p, Yields.bind (.note _) (.pure p), rfl⟩
  | true =>
      have hfresh : p.debugger.breakpoints = [] := by rw [hplain]; rfl
      have hcapacity : p.debugger.capacity = config.breakpointCapacity := by rw [hplain]; rfl
      obtain ⟨v, hv, hsame⟩ := yields_debuggerSetup s args hfresh (hcapacity ▸ hroom hdebug)
      exact ⟨v, Yields.bind (.note _) (Yields.bind (.note _) hv), hsame⟩

/-- The plain machine of a session: its program is in memory and no debugger is on. -/
structure Loaded (s : Surroundings) (args : Arguments) (p : Machine StreamConsole) : Prop where
  /-- The configuration and the image are found, and the image fits. -/
  found : ∃ base path image, Yields (findConfig s args.config) (.ok base) ∧
    args.image = some path ∧
    s.files.image path (if args.hex then .hexText else .raw) = .ok image ∧
    (Machine.new (args.override base) { input := s.input }).loadProgram
      (args.override base).loadAddr image = .ok p
  /-- The image is to be executed. -/
  executed : args.disasm = false

/-- There is room for the breakpoints asked for, if they are to be set. -/
def Room (p : Machine StreamConsole) (args : Arguments) : Prop :=
  args.debug = true → args.breakpoints.dedup.length ≤ p.config.breakpointCapacity

theorem Loaded.fresh {s : Surroundings} {args : Arguments} {p : Machine StreamConsole}
    (h : Loaded s args p) :
    p.cpu.halted = false ∧ p.debugger.enabled = false ∧ p.debugger.instructions = 0 := by
  obtain ⟨base, path, image, -, -, -, hload⟩ := h.found
  rw [(Machine.loadProgram_eq_ok_iff.mp hload).2]
  exact ⟨rfl, rfl, rfl⟩

/-- A session comes to what its plain machine comes to. -/
theorem session_ends {s : Surroundings} {args : Arguments} {p : Machine StreamConsole}
    (h : Loaded s args p) (hroom : Room p args) :
    ∃ verdict, (session s args).1 = verdict.outcome args.budget ∧
      Ends p args.budget.toNat verdict := by
  obtain ⟨hhalted, hoff, hfresh⟩ := h.fresh
  obtain ⟨base, path, image, hconfig, hpath, himage, hload⟩ := h.found
  have hcapacity : p.config.breakpointCapacity = (args.override base).breakpointCapacity := by
    rw [(Machine.loadProgram_eq_ok_iff.mp hload).2]
    rfl
  rw [Room, hcapacity] at hroom
  obtain ⟨v, hv, hsame⟩ := yields_prepare hload hroom
  have hfollows : Machine.Follows v p := ⟨hsame.symm, hoff⟩
  obtain ⟨verdict, hverdict, hends⟩ :=
    execute_verdict (·.output.size) args.budget hfollows hhalted hfresh
  refine ⟨verdict, ?_, hends⟩
  have hwork : Yields (work s args) (verdict.outcome args.budget) := by
    unfold work
    refine hconfig.bind ?_
    simp only [hpath, h.executed, Bool.false_eq_true, ↓reduceIte]
    exact (yields_findImage himage).bind (hv.bind (yields_executeProgram s hverdict))
  exact hwork {}

/-- Different verdicts have different outcomes. -/
theorem Verdict.outcome_inj {budget : UInt64} {verdict verdict' : Verdict}
    (h : verdict.outcome budget = verdict'.outcome budget) : verdict = verdict' := by
  cases verdict <;> cases verdict' <;> cases h <;> rfl

theorem session_eq_iff {s : Surroundings} {args : Arguments} {p : Machine StreamConsole}
    (h : Loaded s args p) (hroom : Room p args) (verdict : Verdict) :
    (session s args).1 = verdict.outcome args.budget ↔ Ends p args.budget.toNat verdict := by
  obtain ⟨found, hfound, hends⟩ := session_ends h hroom
  rw [hfound]
  constructor
  · intro heq
    rwa [← Verdict.outcome_inj heq]
  · intro hends'
    rw [hends.unique hends']

/-! ## Main result -/

/-- **The debugger does not change how a session ends.**  Let `p` be the plain
machine of a session, and `N` the number of steps that the arguments allow, or the
greatest 64-bit number if they say nothing of it.  The session comes to an exit code
exactly when `p` executes some number of instructions below `N` and the next one
stops it with that code; to a fault exactly when `p` executes some number of
instructions below `N` and the next one fails with that fault; and to an
exhausted budget exactly when `p` executes `N` instructions and could go on.

None of this mentions the debugger, so the session comes to the same however it
is set. -/
theorem session_outcome {s : Surroundings} {args : Arguments} {p : Machine StreamConsole}
    {N : UInt64} (hN : N = args.maxSteps.getD 0xFFFFFFFFFFFFFFFF) (h : Loaded s args p)
    (hroom : Room p args) :
    (∀ code, (session s args).1 = .ok code ↔
      ∃ k < N.toNat, p.Halts k code ∧
        (p.stepped (k + 1)).debugger.instructions.toNat = k + 1) ∧
    (∀ f, (session s args).1 = .error (.faulted f) ↔
      ∃ k < N.toNat, p.Fails k f ∧ (p.stepped k).debugger.instructions.toNat = k) ∧
    ((session s args).1 = .error (.exhausted N) ↔
      p.GoesOn N.toNat ∧ (p.stepped N.toNat).debugger.instructions = N) ∧
    (N = 0 → (session s args).1 = .error (.exhausted N)) ∧
    ∀ debug breakpoints singleStep,
      Room p { args with debug, breakpoints, singleStep } →
      (session s { args with debug, breakpoints, singleStep }).1 = (session s args).1 := by
  obtain rfl : N = args.budget := hN
  obtain ⟨hhalted, -, hfresh⟩ := h.fresh
  have hcount : ∀ k, k ≤ args.budget.toNat →
      (p.debugger.instructions + UInt64.ofNat k).toNat = k := by
    intro k hk
    have hzero : p.debugger.instructions.toNat = 0 := by rw [hfresh]; rfl
    have hbound := args.budget.toNat_lt
    rw [toNat_add_ofNat (by omega), hzero, Nat.zero_add]
  have hexhausted := session_eq_iff h hroom .exhausted
  refine ⟨?_, ?_, ?_, ?_, ?_⟩
  · intro code
    refine (session_eq_iff h hroom (.exited code)).trans ⟨?_, ?_⟩
    · intro hends
      cases hends with
      | exited hk hhalts =>
          exact ⟨_, hk, hhalts, by rw [hhalts.instructions hhalted, hcount _ hk]⟩
    · rintro ⟨k, hk, hhalts, -⟩
      exact .exited hk hhalts
  · intro f
    refine (session_eq_iff h hroom (.faulted f)).trans ⟨?_, ?_⟩
    · intro hends
      cases hends with
      | faulted hk hfails =>
          refine ⟨_, hk, hfails, ?_⟩
          rw [(hfails.goesOn.instructions_stepped hhalted).1, hcount _ (Nat.le_of_lt hk)]
    · rintro ⟨k, hk, hfails, -⟩
      exact .faulted hk hfails
  · refine hexhausted.trans ⟨?_, ?_⟩
    · intro hends
      cases hends with
      | exhausted hgo =>
          refine ⟨hgo, UInt64.toNat_inj.mp ?_⟩
          rw [(hgo.instructions_stepped hhalted).1, hcount _ (Nat.le_refl _)]
    · rintro ⟨hgo, -⟩
      exact .exhausted hgo
  · intro hzero
    refine hexhausted.mpr (.exhausted ?_)
    rw [hzero]
    exact .zero p
  · intro debug breakpoints singleStep hroom'
    have hother : Loaded s { args with debug, breakpoints, singleStep } p :=
      ⟨h.found, h.executed⟩
    obtain ⟨verdict, hverdict, hends⟩ := session_ends h hroom
    rw [hverdict]
    exact (session_eq_iff hother hroom' verdict).mpr hends

/-- Surroundings with an empty program and no configuration. -/
def emptyProgram : Surroundings where
  files := fun path => if path = "program" then .ok [] else .error .notFound
  home := "home"

/-- Arguments to execute it under the debugger, from behind the end of memory on. -/
def astrayArguments (maxSteps : Option UInt64) : Arguments :=
  { image := some "program", entry := some 0x10000, maxSteps,
    debug := true, breakpoints := [0x10000], singleStep := true }

/-- The debugger pauses first, and then the session fails as the plain machine does, if one
step is allowed or nothing is said of steps.  With no step allowed, the budget is exhausted. -/
theorem session_outcome_astray :
    Loaded emptyProgram (astrayArguments none) (Machine.new { entryPc := 0x10000 } {}) ∧
      Room (Machine.new { entryPc := 0x10000 } {}) (astrayArguments none) ∧
      (session emptyProgram (astrayArguments (some 1))).1 =
        .error (.faulted ⟨0x10000, .fetch (.accessViolation 0x10000 4 .fetching)⟩) ∧
      (session emptyProgram (astrayArguments none)).1 =
        .error (.faulted ⟨0x10000, .fetch (.accessViolation 0x10000 4 .fetching)⟩) ∧
      (session emptyProgram (astrayArguments (some 0))).1 = .error (.exhausted 0) := by
  have hconfig : Yields (findConfig emptyProgram "profile/config.toml") (.ok {}) := by
    have hmissing : emptyProgram.files.holds
        (Files.resolve emptyProgram.home "profile/config.toml") = false := by
      unfold Files.resolve
      split <;> decide
    unfold findConfig
    simp only [hmissing]
    exact Yields.bind (.note _) (.pure _)
  have hloaded (maxSteps : Option UInt64) : Loaded emptyProgram (astrayArguments maxSteps)
      (Machine.new { entryPc := 0x10000 } {}) :=
    ⟨⟨{}, "program", [], hconfig, rfl, rfl, rfl⟩, rfl⟩
  have hroom (maxSteps : Option UInt64) :
      Room (Machine.new { entryPc := 0x10000 } {}) (astrayArguments maxSteps) := by
    intro _
    show ([0x10000] : List UInt32).dedup.length ≤ ({} : Config).breakpointCapacity
    decide
  refine ⟨hloaded none, hroom none, ?_, ?_, ?_⟩
  · obtain ⟨-, hfault, -⟩ := session_outcome (N := 1) rfl (hloaded (some 1)) (hroom _)
    exact (hfault _).mpr ⟨0, by decide, ⟨.zero _, rfl⟩, rfl⟩
  · obtain ⟨-, hfault, -⟩ :=
      session_outcome (N := 0xFFFFFFFFFFFFFFFF) rfl (hloaded none) (hroom _)
    exact (hfault _).mpr ⟨0, by decide, ⟨.zero _, rfl⟩, rfl⟩
  · obtain ⟨-, -, -, hnone, -⟩ := session_outcome (N := 0) rfl (hloaded (some 0)) (hroom _)
    exact hnone rfl

end SandboxCpu.CommandLine
