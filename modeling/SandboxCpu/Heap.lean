/-!
# The heap

Blocks are handed out one after the other from a region of memory and are never taken back, so that
offsets only grow. A block takes its size rounded up to a whole number of words.

`Heap.alloc_eq_of_not_fits` and `Heap.used_alloc_le` say that a request that does not fit changes
nothing, and that the part in use never passes the end of the region.
-/

namespace SandboxCpu

/-- A region of memory of which the first `used` bytes are handed out. -/
structure Heap where
  base : UInt32
  size : UInt32
  /-- How much of it is in use. -/
  used : UInt32
  deriving DecidableEq, Repr

namespace Heap

/-- A region of which nothing is in use. -/
def fresh (base size : UInt32) : Heap := ⟨base, size, 0⟩

/-- Whether a block of `n` bytes is left. -/
def fits (h : Heap) (n : UInt32) : Bool := h.used.toNat + n.toNat ≤ h.size.toNat

/-- A size rounded up to a whole number of words. -/
def roundUp (n : Nat) : Nat := (n + 3) / 4 * 4

/-- How much is in use after a block of `n` bytes. Rounding may reach past the end of the region,
which is then full. -/
def usedAfter (h : Heap) (n : UInt32) : UInt32 :=
  UInt32.ofNat (min (h.used.toNat + roundUp n.toNat) h.size.toNat)

/-- The address of a new block of `n` bytes and the heap after it; address zero and the same heap
when no such block is left. -/
def alloc (h : Heap) (n : UInt32) : UInt32 × Heap :=
  if h.fits n then (h.base + h.used, { h with used := h.usedAfter n }) else (0, h)

/-- Gives a block back, which is always accepted and never reclaims anything. -/
def free (h : Heap) (_addr : UInt32) : Bool × Heap := (true, h)

/-- The heap with nothing in use. -/
def reset (h : Heap) : Heap := { h with used := 0 }

/-- How much is not in use. -/
def remaining (h : Heap) : UInt32 := h.size - h.used

theorem alloc_eq_of_not_fits {h : Heap} {n : UInt32} (hn : h.fits n = false) :
    h.alloc n = (0, h) := by
  simp [alloc, hn]

@[simp] theorem base_alloc (h : Heap) (n : UInt32) : (h.alloc n).2.base = h.base := by
  unfold alloc
  split <;> rfl

@[simp] theorem size_alloc (h : Heap) (n : UInt32) : (h.alloc n).2.size = h.size := by
  unfold alloc
  split <;> rfl

theorem toNat_usedAfter (h : Heap) (n : UInt32) :
    (h.usedAfter n).toNat = min (h.used.toNat + roundUp n.toNat) h.size.toNat := by
  have := h.size.toNat_lt
  simp only [usedAfter, UInt32.toNat_ofNat']
  omega

theorem used_alloc_le {h : Heap} (n : UInt32) (hle : h.used ≤ h.size) :
    (h.alloc n).2.used ≤ (h.alloc n).2.size := by
  unfold alloc
  split
  · rw [UInt32.le_iff_toNat_le, toNat_usedAfter]
    exact Nat.min_le_right _ _
  · exact hle

end Heap

end SandboxCpu
