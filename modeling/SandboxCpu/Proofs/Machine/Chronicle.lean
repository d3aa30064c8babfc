import SandboxCpu.Proofs.Machine.History

/-!
# Histories, call by call

A history is a list of what a host did, and a single entry of it, `steps` or
`run`, can stand for many calls of `step`.  Its *chronicle* lists the calls one by
one: each call of `step` with the machine on which it was made, and each other
operation as it is.

What a machine remembers of its past can then be compared with that past.  A
relation between chronicles and machines holds of all histories when single
calls keep it (`chronicle_keeps`), and it then holds in the middle of them too, at
every call of `step` (`at_call`).
-/

namespace SandboxCpu

/-- One call in a history. -/
inductive Act (κ : Type)
  /-- A call of `step`, alone or within `steps` or `run`, and the machine on which it
  is made. -/
  | step (on : Machine κ)
  /-- Another operation. -/
  | other (op : Operation κ)

namespace Machine

variable {κ : Type} [Console κ] {m : Machine κ}

/-- The calls of `step` that `n` steps make. -/
def stepCalls : Nat → Machine κ → List (Act κ)
  | 0, _ => []
  | n + 1, m =>
    .step m :: match m.step with
      | (.ok .ongoing, m) => stepCalls n m
      | _ => []

/-- The calls that an operation makes. -/
def calls (m : Machine κ) (op : Operation κ) : List (Act κ) :=
  match op with
  | .step => [.step m]
  | .steps n | .run n => stepCalls n m
  | op => [.other op]

/-- A history, call by call. -/
def chronicle : Machine κ → List (Operation κ) → List (Act κ)
  | _, [] => []
  | m, op :: history => m.calls op ++ chronicle (m.perform op).2 history

/-! ## One operation -/

/-- A run ends where as many steps end. -/
theorem snd_run (bound : Nat) : ∀ m : Machine κ, (run bound m).2 = (steps bound m).2 := by
  induction bound with
  | zero => intro m; rfl
  | succ n ih =>
      intro m
      unfold run steps
      rcases m.step with ⟨_ | _ | _ | _, n⟩
      · rfl
      · exact ih n
      · rfl
      · rfl

theorem calls_of_not_isStepping {op : Operation κ} (h : op.isStepping = false) :
    m.calls op = [.other op] := by
  cases op
  case step | steps | run => cases h
  all_goals rfl

/-- What says how far the guest has got. -/
structure Progress where
  halted : Bool
  phase : Phase
  exitCode : Int32

/-- How far the guest of a machine has got. -/
def progress (m : Machine κ) : Progress := ⟨m.cpu.halted, m.phase, m.exitCode⟩

/-- Steps are calls of `step` and of nothing else. -/
theorem not_mem_stepCalls {op : Operation κ} (n : Nat) :
    ∀ {m : Machine κ}, .other op ∉ stepCalls n m := by
  induction n with
  | zero => exact List.not_mem_nil
  | succ n ih =>
      intro m hmem
      rw [stepCalls, List.mem_cons] at hmem
      rcases hmem with hfirst | hrest
      · cases hfirst
      · split at hrest
        · exact ih hrest
        · cases hrest

/-- A chronicle tells of no operation that its history does not have. -/
theorem mem_of_mem_chronicle {op : Operation κ} {history : List (Operation κ)} :
    ∀ {m : Machine κ}, .other op ∈ m.chronicle history → op ∈ history := by
  induction history with
  | nil => exact fun hmem => absurd hmem List.not_mem_nil
  | cons first history ih =>
      intro m hmem
      rw [chronicle, List.mem_append] at hmem
      rcases hmem with hcalls | hrest
      · have hfirst : op = first := by
          cases first
          case step => cases List.mem_singleton.mp hcalls
          case steps n => exact absurd hcalls (not_mem_stepCalls n)
          case run bound => exact absurd hcalls (not_mem_stepCalls bound)
          all_goals exact Act.other.inj (List.mem_singleton.mp hcalls)
        exact hfirst ▸ List.mem_cons_self
      · exact List.mem_cons_of_mem _ (ih hrest)

/-- A guest that got as far as another, with the same account of how it got there. -/
structure Undisturbed (m m' : Machine κ) : Prop where
  progress : m'.progress = m.progress
  tracer : m'.tracer = m.tracer
  instructions : m'.debugger.instructions = m.debugger.instructions

/-- Only steps and a reset change how far the guest has got, or the account of it. -/
theorem undisturbed_perform {op : Operation κ} (hop : op.isStepping = false)
    (hreset : op ≠ .reset) : Undisturbed m (m.perform op).2 := by
  have h := framed_perform (m := m) hop hreset
  refine ⟨?_, h.tracer, (h.counters hreset).1⟩
  rw [progress, progress, h.halted, h.phase, h.exitCode]

/-- Only steps and a reset change how far the guest has got. -/
theorem progress_perform {op : Operation κ} (hop : op.isStepping = false)
    (hreset : op ≠ .reset) : (m.perform op).2.progress = m.progress :=
  (undisturbed_perform hop hreset).progress

/-! ## Invariants of chronicles -/

section Invariants

variable {P : List (Act κ) → Machine κ → Prop}

theorem stepCalls_keeps (hstep : ∀ acts m, P acts m → P (acts ++ [.step m]) m.step.2) (n : Nat) :
    ∀ acts m, P acts m → P (acts ++ stepCalls n m) (steps n m).2 := by
  induction n with
  | zero =>
      intro acts m h
      rw [stepCalls, List.append_nil]
      exact h
  | succ n ih =>
      intro acts m h
      have hnext := hstep acts m h
      unfold stepCalls steps
      generalize m.step = r at hnext
      rcases r with ⟨_ | _ | _ | _, m'⟩
      · exact hnext
      · rw [List.append_cons]
        exact ih _ m' hnext
      · exact hnext
      · exact hnext

/-- What single calls keep, a history keeps. -/
theorem chronicle_keeps (hstep : ∀ acts m, P acts m → P (acts ++ [.step m]) m.step.2)
    (hother : ∀ acts m op, op.isStepping = false → P acts m →
      P (acts ++ [.other op]) (m.perform op).2) (history : List (Operation κ)) :
    ∀ acts m, P acts m → P (acts ++ m.chronicle history) (m.after history) := by
  induction history with
  | nil =>
      intro acts m h
      rw [chronicle, List.append_nil]
      exact h
  | cons op history ih =>
      intro acts m h
      rw [chronicle, ← List.append_assoc]
      refine ih _ (m.perform op).2 ?_
      cases hop : op.isStepping with
      | false =>
          rw [calls_of_not_isStepping hop]
          exact hother acts m op hop h
      | true =>
          cases op
          case step => exact hstep acts m h
          case steps n => exact stepCalls_keeps hstep n acts m h
          case run bound =>
            change P _ (run bound m).2
            rw [snd_run]
            exact stepCalls_keeps hstep bound acts m h
          all_goals cases hop

omit [Console κ] in
/-- Where a call of `step` stands in a chronicle that became longer by one call. -/
theorem snoc_eq_iff {acts before after : List (Act κ)} {a act : Act κ} :
    acts ++ [a] = before ++ act :: after ↔
      (after = [] ∧ acts = before ∧ a = act) ∨
        ∃ rest, after = rest ++ [a] ∧ acts = before ++ act :: rest := by
  constructor
  · intro h
    rcases List.eq_nil_or_concat after with rfl | ⟨rest, b, rfl⟩
    · obtain ⟨hacts, ha⟩ := List.append_inj' h rfl
      exact .inl ⟨rfl, hacts, List.singleton_inj.mp ha⟩
    · rw [List.concat_eq_append, ← List.cons_append, ← List.append_assoc] at h
      obtain ⟨hacts, ha⟩ := List.append_inj' h rfl
      cases List.singleton_inj.mp ha
      exact .inr ⟨rest, List.concat_eq_append, hacts⟩
  · rintro (⟨rfl, rfl, rfl⟩ | ⟨rest, rfl, rfl⟩)
    · rfl
    · rw [List.append_assoc, List.cons_append]

/-- A relation holds after a chronicle and at each call of `step` in it. -/
def Throughout (P : List (Act κ) → Machine κ → Prop) (acts : List (Act κ)) (m : Machine κ) :
    Prop :=
  P acts m ∧ ∀ before on after, acts = before ++ .step on :: after → P before on

/-- What single calls keep holds at every call of `step` in a history. -/
theorem at_call (hstep : ∀ acts m, P acts m → P (acts ++ [.step m]) m.step.2)
    (hother : ∀ acts m op, op.isStepping = false → P acts m →
      P (acts ++ [.other op]) (m.perform op).2) {history : List (Operation κ)}
    (hstart : P [] m) {before after : List (Act κ)} {on : Machine κ}
    (h : m.chronicle history = before ++ .step on :: after) : P before on := by
  have hkept := chronicle_keeps (P := Throughout P) ?_ ?_ history [] m ⟨hstart, ?_⟩
  · exact hkept.2 before on after h
  · rintro acts n ⟨hn, hcalls⟩
    refine ⟨hstep acts n hn, fun before on after heq => ?_⟩
    obtain ⟨-, rfl, hlast⟩ | ⟨rest, -, hrest⟩ := snoc_eq_iff.mp heq
    · cases hlast
      exact hn
    · exact hcalls before on rest hrest
  · rintro acts n op hop ⟨hn, hcalls⟩
    refine ⟨hother acts n op hop hn, fun before on after heq => ?_⟩
    obtain ⟨-, -, hlast⟩ | ⟨rest, -, hrest⟩ := snoc_eq_iff.mp heq
    · cases hlast
    · exact hcalls before on rest hrest
  · intro before on after heq
    exact absurd heq (List.append_ne_nil_of_right_ne_nil _ (List.cons_ne_nil _ _)).symm

end Invariants

end Machine

end SandboxCpu
