import SandboxCpu.Proofs.CommandLine.Turns
import SandboxCpu.Proofs.Machine.Trace

/-!
# A budget is kept

The command line takes turns until one of them is the last.  That there is a last one,
and that the guest has not executed too much by then, is shown here for the loop as
such, which knows no bound on the turns (`Begins`).

What is left of the budget does not bound them by itself, as a turn that only ends in a
breakpoint pause uses nothing of it.  But the pause leaves a marker, and the next turn
does not end in the same way.  So a pause that is due counts as one turn and each
instruction as two (`turnsLeft`), and this goes down with every turn
(`turnsLeft_nextTurn`).  It makes no difference how the pauses come about, by
breakpoints that are reached again and again, or by single steps.

A turn makes no more calls of `step` than are left, and a call executes one instruction
at most.  So the counter stays within the budget at every call.

## Main results

* `turnsLeft_nextTurn`: the measure of the loop.
* `Begins.bounded`, `Begins.accounted`: its invariants.
* `ends_within_budget`: the loop of a machine just after loading.
-/

namespace SandboxCpu

/-! ## Calls and instructions -/

section Calls

variable {κ : Type} [Console κ]

/-- A call adds one instruction at most to what was executed. -/
theorem length_executed_append_le (acts calls : List (Act κ)) :
    (executed (acts ++ calls)).length ≤ (executed acts).length + calls.length := by
  induction calls using List.reverseRecOn with
  | nil => rw [List.append_nil]; exact Nat.le_add_right _ _
  | append_singleton calls act ih =>
      rw [← List.append_assoc, executed_concat, List.length_append, List.length_singleton]
      cases act with
      | step on =>
          have hone : on.executing.toList.length ≤ 1 := by
            cases on.executing with
            | none => exact Nat.zero_le 1
            | some e => exact Nat.le_refl 1
          rw [Act.recorded, List.length_append]
          omega
      | other op =>
          cases op with
          | reset => exact Nat.zero_le _
          | _ => exact ih.trans (Nat.le_succ _)

namespace Machine

variable {m n : Machine κ}

theorem length_stepCalls_le (c : Nat) : ∀ m : Machine κ, (stepCalls c m).length ≤ c := by
  induction c with
  | zero => intro m; exact Nat.le_refl 0
  | succ c ih =>
      intro m
      rw [stepCalls, List.length_cons]
      split
      · exact Nat.succ_le_succ (ih _)
      · exact Nat.succ_le_succ (Nat.zero_le c)

/-- The counter has the number of the instructions that were executed in some calls. -/
def Accounted (acts : List (Act κ)) (m : Machine κ) : Prop :=
  m.debugger.instructions = UInt64.ofNat (executed acts).length

theorem Accounted.step {acts : List (Act κ)} (h : Accounted acts m) :
    Accounted (acts ++ [.step m]) m.step.2 := by
  unfold Accounted at h ⊢
  rw [executed_concat, Act.recorded]
  rcases recorded_step m with ⟨hnone, -, hcount⟩ | ⟨e, hsome, -, hcount⟩
  · rw [hcount, h, hnone, Option.toList_none, List.append_nil]
  · rw [hcount, h, hsome, Option.toList_some, List.length_append, UInt64.ofNat_add]
    rfl

/-- A call moves the counter by one at most. -/
theorem instructions_step_le (m : Machine κ) :
    m.step.2.debugger.instructions.toNat ≤ m.debugger.instructions.toNat + 1 := by
  rcases recorded_step m with ⟨-, -, hcount⟩ | ⟨e, -, -, hcount⟩
  · rw [hcount]
    exact Nat.le_succ _
  · rw [hcount, UInt64.toNat_add]
    exact Nat.mod_le _ _

/-- As many calls as are left keep the counter within a bound, all along. -/
theorem instructions_stepCalls_le {bound : Nat} (c : Nat) : ∀ {m : Machine κ},
    m.debugger.instructions.toNat + c ≤ bound → ∀ on, .step on ∈ stepCalls c m →
      on.debugger.instructions.toNat ≤ bound ∧
        on.step.2.debugger.instructions.toNat ≤ bound := by
  induction c with
  | zero => exact fun _ _ hmem => absurd hmem List.not_mem_nil
  | succ c ih =>
      intro m hbound on hmem
      have hstep := instructions_step_le m
      rw [stepCalls, List.mem_cons] at hmem
      rcases hmem with hfirst | hrest
      · cases hfirst
        exact ⟨by omega, by omega⟩
      · split at hrest
        · rename_i next heq
          rw [heq] at hstep
          change next.debugger.instructions.toNat ≤ _ at hstep
          exact ih (by omega) on hrest
        · exact absurd hrest List.not_mem_nil

/-- A call after which execution goes on or pauses executes an instruction, unless a
breakpoint holds the machine. -/
theorem instructions_or_held {outcome : StepOutcome} (h : m.step = (.ok outcome, n))
    (houtcome : outcome ≠ .halted) :
    n.debugger.instructions = m.debugger.instructions + 1 ∨
      (m.pauses = true ∧ n = m.held) := by
  cases m.situation with
  | stopped hhalted =>
      rw [step_of_halted hhalted] at h
      cases h
      exact absurd rfl houtcome
  | held hpauses =>
      rw [step_of_pauses hpauses] at h
      cases h
      exact .inr ⟨hpauses, rfl⟩
  | failed hhalted hpauses hattempt =>
      rw [step_of_fault hhalted hpauses hattempt] at h
      cases h
  | done hhalted hpauses hattempt =>
      have hcount := instructions_success hhalted hpauses hattempt
      rw [h] at hcount
      exact .inl hcount

/-- So do several calls: they execute nothing only if there are none, or if a breakpoint
holds the machine at the first. -/
theorem instructions_steps (c : Nat) : ∀ {m n : Machine κ} {outcome : StepOutcome},
    steps c m = (.ok outcome, n) → outcome ≠ .halted →
      ∃ k ≤ c, n.debugger.instructions = m.debugger.instructions + UInt64.ofNat k ∧
        (k = 0 → c = 0 ∨ m.pauses = true ∧ n = m.held) := by
  induction c with
  | zero =>
      intro m n outcome h _
      cases h
      exact ⟨0, Nat.le_refl 0, (UInt64.add_zero _).symm, fun _ => .inl rfl⟩
  | succ c ih =>
      intro m n outcome h houtcome
      unfold steps at h
      split at h
      · rename_i next hstep
        obtain ⟨k, hk, hcount, -⟩ := ih h houtcome
        rcases instructions_or_held hstep nofun with hone | ⟨hpauses, -⟩
        · refine ⟨k + 1, Nat.succ_le_succ hk, ?_, fun h0 => absurd h0 (Nat.succ_ne_zero k)⟩
          rw [hcount, hone, Nat.add_comm, UInt64.ofNat_add, UInt64.add_assoc]
          rfl
        · rw [step_of_pauses hpauses] at hstep
          cases hstep
      · rcases instructions_or_held h houtcome with hone | hheld
        · exact ⟨1, by omega, hone, fun h1 => absurd h1 Nat.one_ne_zero⟩
        · refine ⟨0, Nat.zero_le _, ?_, fun _ => .inr hheld⟩
          rw [hheld.2]
          exact (m.debugger.counters_hold m.cpu.pc).1.trans (UInt64.add_zero _).symm

/-- Whatever a host does to a new machine, short of calling `step`, it has executed
nothing. -/
theorem instructions_setup {setup : List (Operation κ)}
    (hsetup : ∀ op ∈ setup, op.isStepping = false) :
    ∀ {m : Machine κ}, m.debugger.instructions = 0 →
      (m.after setup).debugger.instructions = 0 := by
  induction setup with
  | nil => exact fun h => h
  | cons op setup ih =>
      intro m h
      refine ih (fun op hmem => hsetup op (List.mem_cons_of_mem _ hmem)) ?_
      have hop := hsetup op List.mem_cons_self
      by_cases hreset : op = .reset
      · subst hreset
        rfl
      · exact (undisturbed_perform hop hreset).instructions.trans h

end Machine

end Calls

namespace CommandLine

variable {κ : Type} [Console κ] {budget : UInt64} {m v n : Machine κ}

/-! ## The loop -/

/-- The machine of the next turn, if this one is not the last. -/
def nextTurn (budget : UInt64) (v : Machine κ) : Option (Machine κ) :=
  match turn budget v with
  | (.over _, _) => none
  | (.paused, n) => some (passOver n)
  | (.used, n) => some n

/-- The calls of `step` that a turn makes. -/
def turnCalls (budget : UInt64) (v : Machine κ) : List (Act κ) :=
  Machine.stepCalls (budgetLeft budget v) v

/-- The loop, started with one machine, begins a turn with another, after some turns and
some calls of `step`. -/
inductive Begins (budget : UInt64) (m : Machine κ) : Nat → List (Act κ) → Machine κ → Prop
  | first : Begins budget m 0 [] m
  | next {i : Nat} {acts : List (Act κ)} {v n : Machine κ} (h : Begins budget m i acts v)
      (hturn : nextTurn budget v = some n) :
      Begins budget m (i + 1) (acts ++ turnCalls budget v) n

/-- The next turn begins where the calls of this one have led, apart from the events,
which the report of a pause takes. -/
theorem nextTurn_eq (h : nextTurn budget v = some n) :
    budgetLeft budget v ≠ 0 ∧ ∃ outcome last,
      v.steps (budgetLeft budget v) = (.ok outcome, last) ∧ outcome ≠ .halted ∧
        n.debugger.instructions = last.debugger.instructions ∧ n.pauses = last.pauses := by
  unfold nextTurn turn at h
  by_cases hleft : budgetLeft budget v = 0
  · simp only [hleft, ↓reduceIte, reduceCtorEq] at h
  · refine ⟨hleft, ?_⟩
    simp only [hleft, ↓reduceIte] at h
    generalize v.steps (budgetLeft budget v) = r at h ⊢
    obtain ⟨answer, last⟩ := r
    cases answer with
    | error f => cases h
    | ok outcome =>
        refine ⟨outcome, last, rfl, ?_⟩
        cases outcome with
        | halted => cases h
        | ongoing =>
            cases h
            exact ⟨nofun, rfl, rfl⟩
        | paused =>
            cases h
            exact ⟨nofun, rfl, rfl⟩

/-- A turn without a next one is over. -/
theorem turn_of_nextTurn_eq_none (h : nextTurn budget v = none) :
    ∃ verdict last, turn budget v = (.over verdict, last) := by
  unfold nextTurn at h
  cases hturn : turn budget v with
  | mk outcome last =>
      rw [hturn] at h
      cases outcome with
      | «over» verdict => exact ⟨verdict, last, rfl⟩
      | paused | used => cases h

/-- One of several turns leads to the next, whatever is reported. -/
theorem turns_of_nextTurn (written : κ → Nat) (t : Nat) (pauses : Array Pause)
    (h : nextTurn budget v = some n) :
    ∃ pauses', turns written budget (t + 1) v pauses = turns written budget t n pauses' := by
  unfold nextTurn at h
  cases hturn : turn budget v with
  | mk outcome last =>
      rw [hturn] at h
      cases outcome with
      | «over» verdict => cases h
      | paused =>
          cases h
          refine ⟨pauses.push (pauseOf written last), ?_⟩
          rw [turns, hturn]
      | used =>
          cases h
          refine ⟨pauses, ?_⟩
          rw [turns, hturn]

/-- A turn that is not the last uses some of the budget, unless a breakpoint pause is
all that happens.  Then the next turn does not begin with a pause. -/
theorem nextTurn_uses (hle : v.debugger.instructions.toNat ≤ budget.toNat)
    (h : nextTurn budget v = some n) :
    n.debugger.instructions.toNat ≤ budget.toNat ∧ budgetLeft budget v ≠ 0 ∧
      (budgetLeft budget n < budgetLeft budget v ∨
        budgetLeft budget n = budgetLeft budget v ∧ v.pauses = true ∧ n.pauses = false) := by
  obtain ⟨hleft, outcome, last, hsteps, houtcome, hsame, hpauses⟩ := nextTurn_eq h
  obtain ⟨k, hk, hcount, hnothing⟩ := Machine.instructions_steps _ hsteps houtcome
  have hbound := budget.toNat_lt
  have hused : n.debugger.instructions.toNat = v.debugger.instructions.toNat + k := by
    unfold budgetLeft at hk
    rw [hsame, hcount, toNat_add_ofNat (by omega)]
  refine ⟨by unfold budgetLeft at hk; omega, hleft, ?_⟩
  by_cases hk0 : k = 0
  · obtain hnone | ⟨hbefore, hheld⟩ := hnothing hk0
    · exact absurd hnone hleft
    · refine .inr ⟨by unfold budgetLeft; omega, hbefore, ?_⟩
      rw [hpauses, hheld, v.pauses_held]
  · refine .inl ?_
    unfold budgetLeft at hleft ⊢
    omega

/-! ## The measure -/

/-- How many turns there can still be: two for each instruction that is left, and one for
a pause that is due.  Without any left there is the one that says so. -/
def turnsLeft (budget : UInt64) (v : Machine κ) : Nat :=
  if budgetLeft budget v = 0 then 1
  else 2 * budgetLeft budget v + if v.pauses then 1 else 0

omit [Console κ] in
theorem turnsLeft_pos (budget : UInt64) (v : Machine κ) : 0 < turnsLeft budget v := by
  unfold turnsLeft
  split
  · exact Nat.one_pos
  · omega

omit [Console κ] in
theorem turnsLeft_le (budget : UInt64) (v : Machine κ) :
    turnsLeft budget v ≤ 2 * budgetLeft budget v + 1 := by
  unfold turnsLeft
  split
  · omega
  · split <;> omega

/-- **There are fewer turns left after each.** -/
theorem turnsLeft_nextTurn (hle : v.debugger.instructions.toNat ≤ budget.toNat)
    (h : nextTurn budget v = some n) : turnsLeft budget n < turnsLeft budget v := by
  obtain ⟨-, hleft, hless | ⟨hequal, hpauses, hnot⟩⟩ := nextTurn_uses hle h
  · calc
      turnsLeft budget n ≤ 2 * budgetLeft budget n + 1 := turnsLeft_le budget n
      _ < 2 * budgetLeft budget v := by omega
      _ ≤ turnsLeft budget v := by
        rw [turnsLeft, if_neg hleft]
        exact Nat.le_add_right _ _
  · have hleft' : budgetLeft budget n ≠ 0 := hequal ▸ hleft
    rw [turnsLeft, turnsLeft, if_neg hleft, if_neg hleft', hequal, hpauses, hnot]
    exact Nat.lt_succ_self _

/-! ## Invariants of the loop -/

namespace Begins

variable {i : Nat} {acts : List (Act κ)}

/-- Each turn begins within the budget, with fewer turns left than the one before. -/
theorem bounded (h : Begins budget m i acts v)
    (hle : m.debugger.instructions.toNat ≤ budget.toNat) :
    v.debugger.instructions.toNat ≤ budget.toNat ∧
      i + turnsLeft budget v ≤ turnsLeft budget m := by
  induction h with
  | first => exact ⟨hle, Nat.le_of_eq (Nat.zero_add _)⟩
  | next _ hturn ih =>
      have hless := turnsLeft_nextTurn ih.1 hturn
      exact ⟨(nextTurn_uses ih.1 hturn).1, by omega⟩

/-- The counter has what the turns executed, and that is within the budget. -/
theorem accounted (h : Begins budget m i acts v) (hfresh : m.debugger.instructions = 0) :
    Machine.Accounted acts v ∧
      (executed (acts ++ turnCalls budget v)).length ≤ budget.toNat := by
  have hbound := budget.toNat_lt
  -- What a turn may add is what the counter says is left.
  have hroom : ∀ {acts : List (Act κ)} {v : Machine κ}, Machine.Accounted acts v →
      (executed acts).length ≤ budget.toNat →
      (executed (acts ++ turnCalls budget v)).length ≤ budget.toNat := by
    intro acts v hcount hlength
    have hmore := length_executed_append_le acts (turnCalls budget v)
    have hcalls : (turnCalls budget v).length ≤ budgetLeft budget v :=
      Machine.length_stepCalls_le _ v
    have hvalue : v.debugger.instructions.toNat = (executed acts).length := by
      rw [hcount, UInt64.toNat_ofNat', Nat.mod_eq_of_lt (by omega)]
    rw [budgetLeft, hvalue] at hcalls
    omega
  induction h with
  | first => exact ⟨hfresh, hroom hfresh (Nat.zero_le _)⟩
  | @next i acts v n _ hturn ih =>
      obtain ⟨hcount, hlength⟩ := ih
      obtain ⟨-, outcome, last, hsteps, -, hsame, -⟩ := nextTurn_eq hturn
      have hcalls : Machine.Accounted (acts ++ turnCalls budget v)
          (v.steps (budgetLeft budget v)).2 :=
        Machine.stepCalls_keeps (P := Machine.Accounted) (fun _ _ h => h.step) _ acts v hcount
      rw [hsteps] at hcalls
      have hnext : Machine.Accounted (acts ++ turnCalls budget v) n := hsame.trans hcalls
      exact ⟨hnext, hroom hnext hlength⟩

/-- With turns enough, the loop ends, and a bound on the turns does not show. -/
theorem ends (written : κ → Nat) (t : Nat) : ∀ {i : Nat} {acts : List (Act κ)} {v : Machine κ},
    Begins budget m i acts v → v.debugger.instructions.toNat ≤ budget.toNat →
      turnsLeft budget v ≤ t →
      ∃ j acts' v' verdict last, Begins budget m j acts' v' ∧
        turn budget v' = (.over verdict, last) ∧
        ∀ pauses, (turns written budget t v pauses).2 = (some verdict, last) := by
  induction t with
  | zero =>
      intro i acts v _ _ hturns
      have hpos := turnsLeft_pos budget v
      omega
  | succ t ih =>
      intro i acts v h hle hturns
      cases hnext : nextTurn budget v with
      | none =>
          obtain ⟨verdict, last, hturn⟩ := turn_of_nextTurn_eq_none hnext
          refine ⟨i, acts, v, verdict, last, h, hturn, fun pauses => ?_⟩
          rw [turns, hturn]
      | some n =>
          have hless := turnsLeft_nextTurn hle hnext
          obtain ⟨j, acts', v', verdict, last, hbegins, hover, hturns'⟩ :=
            ih (h.next hnext) (nextTurn_uses hle hnext).1 (by omega)
          refine ⟨j, acts', v', verdict, last, hbegins, hover, fun pauses => ?_⟩
          obtain ⟨pauses', hpauses⟩ := turns_of_nextTurn written t pauses hnext
          rw [hpauses]
          exact hturns' pauses'

end Begins

/-- A breakpoint pause that is due is all that happens in a turn, and costs nothing. -/
theorem nextTurn_of_pauses (hleft : budgetLeft budget v ≠ 0) (hpauses : v.pauses = true) :
    nextTurn budget v = some (passOver v.held) ∧
      budgetLeft budget (passOver v.held) = budgetLeft budget v := by
  obtain ⟨l, hl⟩ := Nat.exists_eq_succ_of_ne_zero hleft
  have hsteps : v.steps (budgetLeft budget v) = (.ok .paused, v.held) := by
    rw [hl, Machine.steps, Machine.step_of_pauses hpauses]
  constructor
  · rw [nextTurn, turn, if_neg hleft, hsteps]
  · rw [budgetLeft, budgetLeft]
    congr 2
    exact (v.debugger.counters_hold v.cpu.pc).1

/-! ## Main result -/

/-- **A budget is kept.**  Take a machine on which a host has done anything but call
`step`: loaded a program, say, and set breakpoints and single steps.  The loop of
turns ends, whatever the budget; execution with its bound on the turns gives the same
verdict and the same machine.  There are at most two turns for each instruction of
the budget, and one more.

At every call of `step` in any of them, before and after it, the counter of instructions
is within the budget, and so is the number of instructions that were executed since the
machine was made.  All the same, a turn that begins with a breakpoint pause uses nothing
of the budget. -/
theorem ends_within_budget (config : Config) (console : κ) {setup : List (Operation κ)}
    (hsetup : ∀ op ∈ setup, op.isStepping = false) (written : κ → Nat) (budget : UInt64) :
    let m := (Machine.new config console).after setup
    (∃ i acts v verdict last, Begins budget m i acts v ∧
      turn budget v = (.over verdict, last) ∧
      (execute written budget m).2 = (some verdict, last)) ∧
    ∀ i acts v, Begins budget m i acts v →
      i + 1 ≤ 2 * budget.toNat + 1 ∧
      v.debugger.instructions.toNat ≤ budget.toNat ∧
      (∀ on, .step on ∈ turnCalls budget v →
        on.debugger.instructions.toNat ≤ budget.toNat ∧
        on.step.2.debugger.instructions.toNat ≤ budget.toNat) ∧
      (executed (acts ++ turnCalls budget v)).length ≤ budget.toNat ∧
      (budgetLeft budget v ≠ 0 → v.pauses = true →
        nextTurn budget v = some (passOver v.held) ∧
        budgetLeft budget (passOver v.held) = budgetLeft budget v) := by
  intro m
  have hfresh : m.debugger.instructions = 0 := Machine.instructions_setup hsetup rfl
  have hle : m.debugger.instructions.toNat ≤ budget.toNat := by
    rw [hfresh]
    exact Nat.zero_le _
  have hlimit : turnsLeft budget m ≤ turnLimit budget := by
    have hturns := turnsLeft_le budget m
    unfold budgetLeft at hturns
    unfold turnLimit
    omega
  constructor
  · obtain ⟨i, acts, v, verdict, last, hbegins, hover, hturns⟩ :=
      Begins.first.ends written (turnLimit budget) hle hlimit
    exact ⟨i, acts, v, verdict, last, hbegins, hover, hturns #[]⟩
  · intro i acts v h
    obtain ⟨hwithin, hturns⟩ := h.bounded hle
    have hpos := turnsLeft_pos budget v
    refine ⟨?_, hwithin, ?_, (h.accounted hfresh).2, nextTurn_of_pauses⟩
    · unfold turnLimit at hlimit
      omega
    · refine Machine.instructions_stepCalls_le _ ?_
      unfold budgetLeft
      omega

/-- A program that jumps to itself, at a breakpoint and in single steps. -/
def circling : List (Operation QueueConsole) :=
  [.load 0 (LittleEndian.bytes 0x50000000), .setDebugger true, .setSingleStep true,
    .addBreakpoint 0]

/-- Each of two instructions takes two turns, so that four turns do not end its loop and
the fifth does. -/
theorem ends_within_budget_circling :
    let m := (Machine.new {} ({} : QueueConsole)).after circling
    (∀ op ∈ circling, op.isStepping = false) ∧
    (turns (fun c => c.output.size) 2 4 m #[]).2.1 = none ∧
    (∃ verdict last, (execute (fun c => c.output.size) 2 m).2 = (some verdict, last)) ∧
    ∀ i acts v, Begins 2 m i acts v → i ≤ 4 ∧ (executed (acts ++ turnCalls 2 v)).length ≤ 2 := by
  intro m
  have hsetup : ∀ op ∈ circling, op.isStepping = false := by decide +kernel
  obtain ⟨⟨-, -, -, verdict, last, -, -, hexecute⟩, hloop⟩ :=
    ends_within_budget {} ({} : QueueConsole) hsetup (fun c => c.output.size) 2
  refine ⟨hsetup, by decide +kernel, ⟨verdict, last, hexecute⟩, fun i acts v h => ?_⟩
  obtain ⟨hturns, -, -, hexecuted, -⟩ := hloop i acts v h
  exact ⟨Nat.le_of_succ_le_succ hturns, hexecuted⟩

end CommandLine

end SandboxCpu
