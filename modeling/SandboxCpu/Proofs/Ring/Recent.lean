import Mathlib.Data.List.DropRight
import SandboxCpu.Ring

/-!
# A bounded queue is the recent past

What is pushed into a bounded queue pushes out what is older.  A queue that was
only ever pushed into, and emptied now and then, therefore holds the last items
that were pushed since, as many as there is room for.

`Ring.Recent` says this of a queue and a list of items, the whole past of the
queue.  With no room nothing is held, which needs no exception: the last zero
items of any past are none.
-/

namespace SandboxCpu.Ring

variable {α : Type}

/-- The queue holds the end of a past, as much of it as there is room for. -/
def Recent (r : Ring α) (past : List α) : Prop := r.toList = past.rtake r.capacity

theorem recent_empty (capacity : Nat) : (empty capacity : Ring α).Recent [] :=
  (List.rtake_nil _).symm

theorem recent_clear (r : Ring α) : r.clear.Recent [] := recent_empty r.capacity

/-- The end of a past has all of it or as much as there is room for. -/
theorem length_rtake (past : List α) (n : Nat) : (past.rtake n).length = min past.length n := by
  rw [List.rtake, List.length_drop]
  omega

/-- What is pushed becomes the last item of the past. -/
theorem Recent.pushOverwrite {r : Ring α} {past : List α} (h : r.Recent past) (x : α) :
    (r.pushOverwrite x).Recent (past ++ [x]) := by
  have hlength : r.toList.length = min past.length r.capacity := by
    rw [h]
    exact length_rtake past r.capacity
  have hsize : r.size ≤ r.capacity := by
    rw [← length_toList, hlength]
    exact Nat.min_le_right _ _
  have hpast : past.length - r.capacity ≤ past.length := Nat.sub_le _ _
  rw [Recent, capacity_pushOverwrite, toList_pushOverwrite r x hsize, hlength, h, List.rtake,
    List.rtake, ← List.drop_append_of_le_length hpast, List.drop_drop, List.length_append,
    List.length_singleton]
  have hdropped : past.length - r.capacity + (min past.length r.capacity + 1 - r.capacity) =
      past.length + 1 - r.capacity := by omega
  rw [hdropped]

/-- What is pushed in turn becomes the end of the past. -/
theorem Recent.foldl_pushOverwrite {r : Ring α} {past : List α} (h : r.Recent past)
    (xs : List α) : (xs.foldl Ring.pushOverwrite r).Recent (past ++ xs) := by
  induction xs generalizing r past with
  | nil =>
      rw [List.append_nil]
      exact h
  | cons x xs ih =>
      rw [List.append_cons]
      exact ih (h.pushOverwrite x)

theorem capacity_foldl_pushOverwrite (r : Ring α) (xs : List α) :
    (xs.foldl pushOverwrite r).capacity = r.capacity := by
  induction xs generalizing r with
  | nil => rfl
  | cons x xs ih => exact (ih _).trans (capacity_pushOverwrite r x)

end SandboxCpu.Ring
