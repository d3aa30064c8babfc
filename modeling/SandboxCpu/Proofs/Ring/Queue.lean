import SandboxCpu.Proofs.Ring.Recent

/-!
# A bounded queue is an ideal one

All that can be done to a bounded queue is data here, one operation for each thing that it
offers, and so are the answers.  An ideal queue is the list of its items, oldest first, and
what the operations do to it can be read off a few equations (`ideal`).  The two are never
told apart: each operation gives the same answer on both and leaves the ideal queue with the
items of the other (`Holds.perform`), so any number of them does.

Neither a full queue nor one without room is an exception to this.  An item that pushes
out the oldest leaves the last items of the queue with it behind them, as many as there is
room for, and with no room these are none.

## Main result

* `bounded_fifo`: answers and items after any operations, and after pushes in turn.
-/

namespace SandboxCpu.Ring

variable {α : Type}

/-- Something that is done to a queue. -/
inductive Operation (α : Type)
  | push (x : α)
  | pushOverwrite (x : α)
  | pop
  | drain
  | clear
  deriving DecidableEq

/-- What comes back from it. -/
inductive Answer (α : Type)
  | done
  | item (x : α)
  | items (xs : List α)
  | refused (e : RingError)
  deriving DecidableEq

/-- Does an operation: its answer and the queue after it.  What is refused changes nothing. -/
def perform (r : Ring α) : Operation α → Answer α × Ring α
  | .push x =>
    match r.push x with
    | .ok r' => (.done, r')
    | .error e => (.refused e, r)
  | .pushOverwrite x => (.done, r.pushOverwrite x)
  | .pop =>
    match r.pop with
    | .ok (x, rest) => (.item x, rest)
    | .error e => (.refused e, r)
  | .drain => (.items r.drain.1, r.drain.2)
  | .clear => (.done, r.clear)

/-- What an operation does to an ideal queue, the list of its items. -/
def ideal (capacity : Nat) (q : List α) : Operation α → Answer α × List α
  | .push x => if q.length < capacity then (.done, q ++ [x]) else (.refused .full, q)
  | .pushOverwrite x => (.done, (q ++ [x]).rtake capacity)
  | .pop =>
    match q with
    | [] => (.refused .empty, [])
    | x :: rest => (.item x, rest)
  | .drain => (.items q, [])
  | .clear => (.done, [])

/-- Does one operation after the other: the answers in order, and what is there at the end. -/
def run {σ : Type} (step : σ → Operation α → Answer α × σ) (s : σ) :
    List (Operation α) → List (Answer α) × σ
  | [] => ([], s)
  | op :: ops =>
    let rest := run step (step s op).2 ops
    ((step s op).1 :: rest.1, rest.2)

/-- A queue of some capacity holds some items, no more than there is room for. -/
structure Holds (r : Ring α) (capacity : Nat) (q : List α) : Prop where
  capacity_eq : r.capacity = capacity
  toList_eq : r.toList = q
  length_le : q.length ≤ capacity

namespace Holds

variable {r : Ring α} {capacity : Nat} {q : List α}

theorem empty (capacity : Nat) : (empty capacity : Ring α).Holds capacity [] where
  capacity_eq := rfl
  toList_eq := rfl
  length_le := Nat.zero_le capacity

theorem clear (h : r.Holds capacity q) : r.clear.Holds capacity [] where
  capacity_eq := h.capacity_eq
  toList_eq := rfl
  length_le := Nat.zero_le capacity

theorem size_eq (h : r.Holds capacity q) : r.size = q.length := by
  rw [← length_toList, h.toList_eq]

/-- The items are the end of themselves, since there is room for all. -/
theorem recent (h : r.Holds capacity q) : r.Recent q := by
  have hnone : q.length - r.capacity = 0 := by
    rw [h.capacity_eq]
    exact Nat.sub_eq_zero_of_le h.length_le
  rw [Recent, h.toList_eq, List.rtake, hnone, List.drop_zero]

/-- Items that are pushed in turn leave the end of what was there and of them. -/
theorem foldl_pushOverwrite (h : r.Holds capacity q) (xs : List α) :
    (xs.foldl Ring.pushOverwrite r).Holds capacity ((q ++ xs).rtake capacity) where
  capacity_eq := by rw [capacity_foldl_pushOverwrite, h.capacity_eq]
  toList_eq := by
    rw [h.recent.foldl_pushOverwrite xs, capacity_foldl_pushOverwrite, h.capacity_eq]
  length_le := by
    rw [length_rtake]
    exact Nat.min_le_right _ _

theorem push (h : r.Holds capacity q) (x : α) :
    (r.perform (.push x)).1 = (ideal capacity q (.push x)).1 ∧
      (r.perform (.push x)).2.Holds capacity (ideal capacity q (.push x)).2 := by
  have hsize := h.size_eq
  have hcapacity := h.capacity_eq
  by_cases hroom : q.length < capacity
  · obtain ⟨r', hpush, hitems, hcap⟩ := push_of_room (r := r) (by omega) x
    simp only [Ring.perform, ideal, hpush, hroom, if_true, true_and]
    refine ⟨hcap.trans hcapacity, by rw [hitems, h.toList_eq], ?_⟩
    rw [List.length_append, List.length_singleton]
    exact hroom
  · have hfull := push_of_full (r := r) (by omega) x
    simp only [Ring.perform, ideal, hfull, hroom, if_false, true_and]
    exact h

theorem pop (h : r.Holds capacity q) :
    (r.perform .pop).1 = (ideal capacity q .pop).1 ∧
      (r.perform .pop).2.Holds capacity (ideal capacity q .pop).2 := by
  cases q with
  | nil =>
      simp only [Ring.perform, ideal, pop_of_nil h.toList_eq, true_and]
      exact h
  | cons x rest =>
      obtain ⟨r', hpop, hitems, hcap⟩ := pop_of_cons h.toList_eq
      simp only [Ring.perform, ideal, hpop, true_and]
      exact ⟨hcap.trans h.capacity_eq, hitems, Nat.le_of_succ_le h.length_le⟩

/-- **An operation cannot tell a queue from its items.** -/
theorem perform (h : r.Holds capacity q) (op : Operation α) :
    (r.perform op).1 = (ideal capacity q op).1 ∧
      (r.perform op).2.Holds capacity (ideal capacity q op).2 := by
  cases op with
  | push x => exact h.push x
  | pushOverwrite x => exact ⟨rfl, h.foldl_pushOverwrite [x]⟩
  | pop => exact h.pop
  | drain => exact ⟨congrArg Answer.items h.toList_eq, h.clear⟩
  | clear => exact ⟨rfl, h.clear⟩

/-- Nor can any number of operations. -/
theorem run (ops : List (Operation α)) : ∀ {r : Ring α} {q : List α}, r.Holds capacity q →
    (Ring.run Ring.perform r ops).1 = (Ring.run (ideal capacity) q ops).1 ∧
      (Ring.run Ring.perform r ops).2.Holds capacity (Ring.run (ideal capacity) q ops).2 := by
  induction ops with
  | nil =>
      intro r q h
      exact ⟨rfl, h⟩
  | cons op ops ih =>
      intro r q h
      obtain ⟨hanswer, hafter⟩ := h.perform op
      obtain ⟨hanswers, hend⟩ := ih hafter
      exact ⟨congrArg₂ List.cons hanswer hanswers, hend⟩

end Holds

/-- No more items are taken from the end than there are. -/
theorem rtake_min_length (q : List α) (n : Nat) : q.rtake (min n q.length) = q.rtake n := by
  have hdropped : q.length - min n q.length = q.length - n := by omega
  rw [List.rtake, List.rtake, hdropped]

/-- **A bounded queue is first in, first out.**  Whatever is done to a queue that was empty, it
answers as the ideal queue does and has the items of the ideal queue, oldest first, which are
never more than its capacity.  Items that are then pushed in turn, however many, leave the end
of what was there and of them: as many items as there are, or as there is room for. -/
theorem bounded_fifo (capacity : Nat) (ops : List (Operation α)) :
    ∃ answers r q, run perform (empty capacity) ops = (answers, r) ∧
      run (ideal capacity) [] ops = (answers, q) ∧
      r.toList = q ∧ r.capacity = capacity ∧ r.size = q.length ∧ q.length ≤ capacity ∧
      ∀ xs : List α,
        (xs.foldl pushOverwrite r).toList =
          (q ++ xs).rtake (min capacity (q.length + xs.length)) ∧
        (xs.foldl pushOverwrite r).size = min capacity (q.length + xs.length) := by
  obtain ⟨hanswers, hend⟩ := Holds.run ops (Holds.empty (α := α) capacity)
  refine ⟨_, _, _, Prod.ext hanswers rfl, rfl, hend.toList_eq, hend.capacity_eq, hend.size_eq,
    hend.length_le, fun xs => ?_⟩
  have hpushed := hend.foldl_pushOverwrite xs
  rw [hpushed.toList_eq, hpushed.size_eq, length_rtake, ← List.length_append, rtake_min_length]
  exact ⟨rfl, Nat.min_comm _ _⟩

end SandboxCpu.Ring
