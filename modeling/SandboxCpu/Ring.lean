/-!
# Bounded queues

A queue that holds at most `capacity` items, oldest first. A full queue either refuses a new item
(`push`) or lets go of its oldest (`pushOverwrite`); with capacity zero nothing is ever kept.

The items lie in two lists, the older ones in order and the newer ones reversed, so that both ends
are at hand. `Ring.toList` is the view through which every operation is described below.
-/

namespace SandboxCpu

/-- Why a bounded queue refuses an operation. -/
inductive RingError
  | full
  | empty
  deriving DecidableEq, Repr

/-- The wording of a queue error. -/
def RingError.message : RingError → String
  | full => "Buffer is full"
  | empty => "Buffer is empty"

/-- A first-in first-out queue of at most `capacity` items. -/
structure Ring (α : Type) where
  /-- The most items it may hold. -/
  capacity : Nat
  /-- The older items, oldest first. -/
  older : List α
  /-- The newer items, newest first. -/
  newer : List α
  size : Nat
  size_eq : size = older.length + newer.length
  deriving Repr

namespace Ring

variable {α : Type}

/-- An empty queue. -/
def empty (capacity : Nat) : Ring α := ⟨capacity, [], [], 0, rfl⟩

/-- The items, oldest first. -/
def toList (r : Ring α) : List α := r.older ++ r.newer.reverse

/-- Whether there is no item. -/
def isEmpty (r : Ring α) : Bool := r.size == 0

/-- Whether there is no room for another item. -/
def isFull (r : Ring α) : Bool := r.capacity ≤ r.size

/-- Adds an item behind all others, whatever the capacity. -/
private def append (r : Ring α) (x : α) : Ring α :=
  ⟨r.capacity, r.older, x :: r.newer, r.size + 1, by simp [r.size_eq, Nat.add_assoc]⟩

/-- The oldest item and the queue without it. -/
def pop? (r : Ring α) : Option (α × Ring α) :=
  match h : r.older with
  | x :: older => some (x, ⟨r.capacity, older, r.newer, r.size - 1, by simp [r.size_eq, h]⟩)
  | [] =>
    match h' : r.newer.reverse with
    | [] => none
    | x :: older =>
      some (x, ⟨r.capacity, older, [], r.size - 1, by
        have := congrArg List.length h'
        simp only [List.length_reverse, List.length_cons] at this
        simp [r.size_eq, h]; omega⟩)

/-- Adds an item, unless the queue is full. -/
def push (r : Ring α) (x : α) : Except RingError (Ring α) :=
  if r.isFull then .error .full else .ok (r.append x)

/-- Takes the oldest item, unless there is none. -/
def pop (r : Ring α) : Except RingError (α × Ring α) :=
  match r.pop? with
  | some taken => .ok taken
  | none => .error .empty

/-- The queue without its oldest item. -/
def dropOldest (r : Ring α) : Ring α :=
  match r.pop? with
  | some (_, rest) => rest
  | none => r

/-- Adds an item; a full queue lets go of its oldest first. -/
def pushOverwrite (r : Ring α) (x : α) : Ring α :=
  if r.capacity = 0 then r
  else if r.isFull then r.dropOldest.append x
  else r.append x

/-- Lets go of all items. -/
def clear (r : Ring α) : Ring α := empty r.capacity

/-- All items, oldest first, and the queue without them. -/
def drain (r : Ring α) : List α × Ring α := (r.toList, r.clear)

/-! ## The operations seen through `toList` -/

@[simp] theorem toList_empty (capacity : Nat) : (empty capacity : Ring α).toList = [] := rfl

@[simp] theorem toList_clear (r : Ring α) : r.clear.toList = [] := rfl

@[simp] theorem capacity_clear (r : Ring α) : r.clear.capacity = r.capacity := rfl

theorem length_toList (r : Ring α) : r.toList.length = r.size := by
  simp [toList, r.size_eq]

private theorem toList_append (r : Ring α) (x : α) : (r.append x).toList = r.toList ++ [x] := by
  simp [toList, append]

/-- Taking the oldest item takes the head of the view. -/
theorem pop?_eq (r : Ring α) :
    r.pop?.map (fun taken => (taken.1, taken.2.toList)) = r.toList.head?.map (·, r.toList.tail) := by
  obtain ⟨capacity, older, newer, size, h⟩ := r
  cases older with
  | cons x older => simp [pop?, toList]
  | nil =>
    unfold pop?
    dsimp only
    split
    · rename_i h'; simp [toList, h']
    · rename_i h'; simp [toList, h']

private theorem toList_dropOldest (r : Ring α) : r.dropOldest.toList = r.toList.tail := by
  have h := r.pop?_eq
  unfold dropOldest
  split
  · rename_i heq
    cases hl : r.toList with
    | nil => simp [heq, hl] at h
    | cons x xs => simpa [heq, hl] using congrArg (Option.map Prod.snd) h
  · rename_i heq
    cases hl : r.toList with
    | nil => rfl
    | cons x xs => simp [heq, hl] at h

/-- Taking the oldest item leaves the capacity. -/
theorem capacity_of_pop? {r rest : Ring α} {x : α} (h : r.pop? = some (x, rest)) :
    rest.capacity = r.capacity := by
  unfold pop? at h
  split at h
  · simp only [Option.some.injEq, Prod.mk.injEq] at h
    rw [← h.2]
  · split at h
    · simp at h
    · simp only [Option.some.injEq, Prod.mk.injEq] at h
      rw [← h.2]

private theorem capacity_dropOldest (r : Ring α) : r.dropOldest.capacity = r.capacity := by
  unfold dropOldest
  split
  · rename_i heq
    exact capacity_of_pop? heq
  · rfl

theorem push_of_full {r : Ring α} (h : r.capacity ≤ r.size) (x : α) :
    r.push x = .error .full := by
  rw [push, isFull, if_pos (decide_eq_true h)]

/-- With room for it, an item goes behind all others. -/
theorem push_of_room {r : Ring α} (h : r.size < r.capacity) (x : α) :
    ∃ r', r.push x = .ok r' ∧ r'.toList = r.toList ++ [x] ∧ r'.capacity = r.capacity := by
  have hroom : ¬ r.isFull = true := by
    rw [isFull, decide_eq_true_iff]
    omega
  exact ⟨r.append x, if_neg hroom, toList_append r x, rfl⟩

theorem pop_of_nil {r : Ring α} (h : r.toList = []) : r.pop = .error .empty := by
  have hview := r.pop?_eq
  rw [h] at hview
  rw [pop, Option.map_eq_none_iff.mp hview]

/-- The item that is taken is the oldest. -/
theorem pop_of_cons {r : Ring α} {x : α} {xs : List α} (h : r.toList = x :: xs) :
    ∃ rest, r.pop = .ok (x, rest) ∧ rest.toList = xs ∧ rest.capacity = r.capacity := by
  have hview := r.pop?_eq
  rw [h] at hview
  obtain ⟨⟨y, rest⟩, hpop, htaken⟩ := Option.map_eq_some_iff.mp hview
  obtain ⟨rfl, rfl⟩ := Prod.mk.inj htaken
  exact ⟨rest, by rw [pop, hpop], rfl, capacity_of_pop? hpop⟩

@[simp] theorem capacity_pushOverwrite (r : Ring α) (x : α) :
    (r.pushOverwrite x).capacity = r.capacity := by
  unfold pushOverwrite
  split
  · rfl
  · split
    · exact capacity_dropOldest r
    · rfl

/-- The view after overwriting is a function of the view and the capacity: the oldest item goes if
there is no room beside it. -/
theorem toList_pushOverwrite_eq (r : Ring α) (x : α) :
    (r.pushOverwrite x).toList =
      if r.capacity = 0 then r.toList
      else if r.capacity ≤ r.toList.length then r.toList.tail ++ [x]
      else r.toList ++ [x] := by
  rw [r.length_toList]
  unfold pushOverwrite isFull
  simp only [decide_eq_true_eq]
  split
  · rfl
  · split
    · rw [toList_append, toList_dropOldest]
    · rw [toList_append]

/-- Overwriting keeps the newest items of the view and the new one: the last `capacity` of both,
as long as no more than `capacity` were there. -/
theorem toList_pushOverwrite (r : Ring α) (x : α) (h : r.size ≤ r.capacity) :
    (r.pushOverwrite x).toList =
      (r.toList ++ [x]).drop (r.toList.length + 1 - r.capacity) := by
  have hlen := r.length_toList
  rw [toList_pushOverwrite_eq]
  split
  · rename_i h0
    have : r.toList.length = 0 := by omega
    rw [List.length_eq_zero_iff.mp this, h0]; rfl
  · rename_i h0
    split
    · rename_i hf
      have hsize : r.toList.length + 1 - r.capacity = 1 := by omega
      rw [hsize]
      cases hl : r.toList with
      | nil => simp only [hl, List.length_nil] at hf; omega
      | cons y ys => simp
    · rename_i hf
      have hsize : r.toList.length + 1 - r.capacity = 0 := by omega
      rw [hsize, List.drop_zero]

end Ring

end SandboxCpu
