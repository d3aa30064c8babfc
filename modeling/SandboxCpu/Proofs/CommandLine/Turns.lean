import Mathlib.Algebra.Group.Nat.Defs
import SandboxCpu.CommandLine.Execution
import SandboxCpu.Proofs.Machine.Plain

/-!
# Execution within a budget, seen from the plain machine

The command line executes in turns, and a turn may end early because the
debugger pauses.  What the turns come to in the end does not depend on that: it
is what the machine without a debugger comes to within as many instructions
(`Ends`, which holds of one verdict only).

The turns never run out first.  With `n` instructions left, `2 * n + 1` turns are
enough, and `2 * n` if the next call does not pause: a turn without an
instruction ends in a breakpoint pause, and the turn after it executes something
(`turns_verdict`).
-/

namespace SandboxCpu.CommandLine

variable {κ : Type} [Console κ] {p v : Machine κ}

/-- How a plain machine ends within `n` instructions. -/
inductive Ends (p : Machine κ) (n : Nat) : Verdict → Prop
  | exited {k : Nat} {code : Int32} (hk : k < n) (h : p.Halts k code) : Ends p n (.exited code)
  | faulted {k : Nat} {f : Fault} (hk : k < n) (h : p.Fails k f) : Ends p n (.faulted f)
  | exhausted (h : p.GoesOn n) : Ends p n .exhausted

namespace Ends

variable {n : Nat} {verdict verdict' : Verdict}

/-- What comes after going on for `k` instructions is what comes in all. -/
theorem after {k : Nat} (h : Ends (p.stepped k) n verdict) (hgo : p.GoesOn k) :
    Ends p (k + n) verdict := by
  cases h with
  | @exited j code hj h =>
      refine .exited (k := k + j) (by omega) ⟨hgo.add h.goesOn, ?_, ?_⟩
      · rw [Machine.stepped_add]
        exact h.step
      · rw [Nat.add_assoc, Machine.stepped_add]
        exact h.exitCode
  | @faulted j f hj h =>
      refine .faulted (k := k + j) (by omega) ⟨hgo.add h.goesOn, ?_⟩
      rw [Machine.stepped_add]
      exact h.step
  | exhausted h => exact .exhausted (hgo.add h)

/-- A machine ends in one way only. -/
theorem unique (h : Ends p n verdict) (h' : Ends p n verdict') : verdict = verdict' := by
  cases h with
  | exited hj h =>
      cases h' with
      | exited _ h' =>
          cases h.stops.unique h'.stops
          rw [← h.exitCode, ← h'.exitCode]
      | faulted _ h' =>
          cases h.stops.unique h'.stops
          cases h.step.symm.trans h'.step
      | exhausted h' => exact absurd h' (h.stops.not_goesOn hj)
  | faulted hj h =>
      cases h' with
      | exited _ h' =>
          cases h.stops.unique h'.stops
          cases h.step.symm.trans h'.step
      | faulted _ h' =>
          cases h.stops.unique h'.stops
          cases h.step.symm.trans h'.step
          rfl
      | exhausted h' => exact absurd h' (h.stops.not_goesOn hj)
  | exhausted h =>
      cases h' with
      | exited hk h' => exact absurd h (h'.stops.not_goesOn hk)
      | faulted hk h' => exact absurd h (h'.stops.not_goesOn hk)
      | exhausted h' => rfl

end Ends

/-! ## Turns -/

/-- A count below `2 ^ 64` does not wrap around. -/
theorem toNat_add_ofNat {a : UInt64} {k : Nat} (h : a.toNat + k < 2 ^ 64) :
    (a + UInt64.ofNat k).toNat = a.toNat + k := by
  rw [UInt64.toNat_add, UInt64.toNat_ofNat', Nat.mod_eq_of_lt (by omega : k < 2 ^ 64),
    Nat.mod_eq_of_lt h]

/-- One turn with `n` instructions left.  When execution is over, it is over for the
plain machine too.  Otherwise that has gone on for some of the `n` instructions;
for none only if a breakpoint pause was all that happened, and then the next
turn does not begin with another. -/
theorem turn_course {budget : UInt64} {n : Nat} (h : Machine.Follows v p)
    (hleft : budgetLeft budget v = n) :
    match turn budget v with
    | (.over verdict, _) => Ends p n verdict
    | (_, next) => 0 < n ∧ ∃ k, k ≤ n ∧ p.GoesOn k ∧ Machine.Follows next (p.stepped k) ∧
        (k = 0 → v.pauses = true ∧ next.pauses = false) := by
  unfold turn
  rw [hleft]
  by_cases hzero : n = 0
  · subst hzero
    exact .exhausted (.zero p)
  · have hpos := Nat.pos_of_ne_zero hzero
    obtain ⟨k, hk, hgo, hcourse⟩ := Machine.steps_course n h
    dsimp only
    rw [if_neg hzero]
    generalize v.steps n = r at hcourse
    obtain ⟨answer, next⟩ := r
    cases answer with
    | error f => exact .faulted hcourse.1 ⟨hgo, hcourse.2⟩
    | ok outcome =>
        cases outcome with
        | halted =>
            obtain ⟨hlt, hstep, hfollows⟩ := hcourse
            exact .exited hlt ⟨hgo, hstep, congrArg Architecture.exitCode hfollows.same⟩
        | ongoing =>
            obtain ⟨rfl, hfollows⟩ := hcourse
            exact ⟨hpos, k, hk, hgo, hfollows, fun h0 => absurd h0 hzero⟩
        | paused => exact ⟨hpos, k, hk, hgo, hcourse⟩

/-- With turns enough, execution ends, and it ends as the plain machine does. -/
theorem turns_verdict (written : κ → Nat) (budget : UInt64) (t : Nat) :
    ∀ (n : Nat) {v p : Machine κ} (pauses : Array Pause), Machine.Follows v p →
      p.cpu.halted = false → p.debugger.instructions.toNat + n = budget.toNat →
      (2 * n + 1 ≤ t ∨ 1 ≤ n ∧ 2 * n ≤ t ∧ v.pauses = false) →
      ∃ verdict, (turns written budget t v pauses).2.1 = some verdict ∧ Ends p n verdict := by
  induction t with
  | zero =>
      intro n v p pauses _ _ _ hturns
      omega
  | succ t ih =>
      intro n v p pauses h hhalted hleft hturns
      have hcount : v.debugger.instructions = p.debugger.instructions :=
        (congrArg Architecture.instructions h.same).symm
      have hn : budgetLeft budget v = n := by
        rw [budgetLeft, hcount]
        omega
      have hturn := turn_course h hn
      -- Whatever the turn reported, the rest is for the machine that it left.
      have hrest : ∀ {k next} (pauses : Array Pause), 0 < n → k ≤ n → p.GoesOn k →
          Machine.Follows next (p.stepped k) → (k = 0 → v.pauses = true ∧ next.pauses = false) →
          ∃ verdict, (turns written budget t next pauses).2.1 = some verdict ∧
            Ends p n verdict := by
        intro k next pauses hpos hk hgo hfollows hpause
        obtain ⟨hexecuted, hrunning⟩ := hgo.instructions_stepped hhalted
        have hleft' : (p.stepped k).debugger.instructions.toNat + (n - k) = budget.toNat := by
          have hbound := budget.toNat_lt
          rw [hexecuted, toNat_add_ofNat (by omega)]
          omega
        have henough : 2 * (n - k) + 1 ≤ t ∨
            1 ≤ n - k ∧ 2 * (n - k) ≤ t ∧ next.pauses = false := by
          by_cases hk0 : k = 0
          · obtain ⟨hbefore, hnext⟩ := hpause hk0
            obtain hmany | ⟨-, -, hnot⟩ := hturns
            · exact .inr ⟨by omega, by omega, hnext⟩
            · rw [hbefore] at hnot
              cases hnot
          · omega
        obtain ⟨verdict, hverdict, hends⟩ := ih (n - k) pauses hfollows hrunning hleft' henough
        refine ⟨verdict, hverdict, ?_⟩
        have hall := hends.after hgo
        rwa [Nat.add_sub_cancel' hk] at hall
      unfold turns
      generalize turn budget v = r at hturn
      obtain ⟨outcome, next⟩ := r
      cases outcome with
      | «over» verdict => exact ⟨verdict, rfl, hturn⟩
      | used =>
          obtain ⟨hpos, k, hk, hgo, hfollows, hpause⟩ := hturn
          exact hrest pauses hpos hk hgo hfollows hpause
      | paused =>
          obtain ⟨hpos, k, hk, hgo, hfollows, hpause⟩ := hturn
          have hpassed : Machine.Follows (passOver next) (p.stepped k) :=
            ⟨hfollows.same, hfollows.off⟩
          exact hrest (pauses.push (pauseOf written next)) hpos hk hgo hpassed hpause

/-- Execution within a budget always ends, and ends as the plain machine does. -/
theorem execute_verdict (written : κ → Nat) (budget : UInt64) (h : Machine.Follows v p)
    (hhalted : p.cpu.halted = false) (hfresh : p.debugger.instructions = 0) :
    ∃ verdict, (execute written budget v).2.1 = some verdict ∧ Ends p budget.toNat verdict := by
  apply turns_verdict written budget (turnLimit budget) budget.toNat #[] h hhalted
  · rw [hfresh]
    exact Nat.zero_add _
  · exact .inl (Nat.le_refl _)

end SandboxCpu.CommandLine
