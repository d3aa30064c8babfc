import Mathlib.Data.List.Pairwise
import SandboxCpu.Heap

/-!
# The blocks of a heap

A heap keeps nothing of its blocks but how much of the region is in use.  Here
they are written down beside it: a *ledger* is a heap with the blocks that it
handed out since the last reset.  What has to be shown of a heap, that its blocks
lie in its region and do not overlap, is then an invariant of ledgers
(`Heap.Laid`), kept by each call and so by every sequence of calls.

The invariant has one part that is not about blocks.  The part in use ends at a
whole number of words, or else it is the whole region, because what is left at
the end of a region may be less than a word.  In the second case nothing but
blocks of no bytes is handed out any more, and so every other block starts at a
whole number of words from the start of the region.

`Heap.Bump` is an allocator that counts without bounds and never stops short of
the size that it has rounded up.  When the region is a whole number of words, a
heap cannot be told from it (`Heap.exact_serve`).

## Main results

* `Laid.alloc`: a request keeps the invariant, whether it is granted or not.
* `blocks_lie_apart`: what holds of a heap after any sequence of calls.
-/

namespace SandboxCpu.Heap

/-! ## Blocks -/

/-- A block: its address and the number of bytes that were asked for. -/
structure Block where
  addr : UInt32
  size : UInt32
  deriving DecidableEq, Repr

namespace Block

/-- The address of the first byte. -/
def start (b : Block) : Nat := b.addr.toNat

/-- The address behind the last byte. -/
def limit (b : Block) : Nat := b.addr.toNat + b.size.toNat

/-- The block that an answer to a request tells of, if it tells of one. -/
def answered (addr size : UInt32) : List Block := if addr = 0 then [] else [⟨addr, size⟩]

end Block

/-! ## One request -/

section Request

variable {h : Heap} {n : UInt32}

/-- The region has no byte at address zero and ends within the range of addresses. -/
structure Placed (h : Heap) : Prop where
  base_pos : 0 < h.base
  fits : h.base.toNat + h.size.toNat ≤ 4294967295

theorem fits_iff : h.fits n = true ↔ h.used.toNat + n.toNat ≤ h.size.toNat := by
  rw [fits, decide_eq_true_eq]

theorem alloc_eq_of_fits (hn : h.fits n = true) :
    h.alloc n = (h.base + h.used, { h with used := h.usedAfter n }) := by
  rw [alloc, if_pos hn]

/-- The end of the part in use is an address. -/
theorem toNat_base_add_used (hp : h.Placed) (hle : h.used.toNat ≤ h.size.toNat) :
    (h.base + h.used).toNat = h.base.toNat + h.used.toNat := by
  have := hp.fits
  rw [UInt32.toNat_add]
  omega

theorem base_add_used_ne_zero (hp : h.Placed) (hle : h.used.toNat ≤ h.size.toNat) :
    h.base + h.used ≠ 0 := by
  intro hzero
  have hsum := toNat_base_add_used hp hle
  have hpos := UInt32.lt_iff_toNat_lt.mp hp.base_pos
  rw [hzero] at hsum
  rw [UInt32.toNat_zero] at hsum hpos
  omega

/-- A request is refused exactly when its bytes are not left. -/
theorem alloc_eq_zero_iff (hp : h.Placed) (hle : h.used.toNat ≤ h.size.toNat) :
    (h.alloc n).1 = 0 ↔ h.size.toNat < h.used.toNat + n.toNat := by
  rw [← Nat.not_le, ← fits_iff]
  constructor
  · intro hzero hn
    rw [alloc_eq_of_fits hn] at hzero
    exact base_add_used_ne_zero hp hle hzero
  · intro hn
    rw [alloc_eq_of_not_fits (Bool.eq_false_iff.mpr hn)]

/-- Rounding up adds less than a word and ends at a whole number of words. -/
theorem roundUp_bounds (n : Nat) : n ≤ roundUp n ∧ roundUp n < n + 4 ∧ roundUp n % 4 = 0 := by
  unfold roundUp
  omega

end Request

/-! ## Blocks that lie apart -/

/-- The blocks lie one behind another in the part of the region that is in use. -/
structure Laid (h : Heap) (blocks : List Block) : Prop where
  used_le : h.used.toNat ≤ h.size.toNat
  /-- The part in use ends at a whole number of words, or with the region. -/
  whole : h.used.toNat % 4 = 0 ∨ h.used.toNat = h.size.toNat
  inside : ∀ b ∈ blocks, h.base.toNat ≤ b.start ∧ b.limit ≤ h.base.toNat + h.used.toNat
  apart : blocks.Pairwise fun b c => b.limit ≤ c.start
  aligned : ∀ b ∈ blocks, 0 < b.size.toNat → b.start % 4 = h.base.toNat % 4

namespace Laid

variable {h : Heap} {blocks : List Block}

theorem fresh (base size : UInt32) : Laid (.fresh base size) [] where
  used_le := Nat.zero_le _
  whole := .inl rfl
  inside := fun _ hb => absurd hb List.not_mem_nil
  apart := .nil
  aligned := fun _ hb => absurd hb List.not_mem_nil

theorem reset (h : Heap) : Laid h.reset [] := fresh h.base h.size

/-- A request keeps the blocks apart: the new one starts where all others have
ended. -/
theorem alloc (hlaid : Laid h blocks) (hp : h.Placed) (n : UInt32) :
    Laid (h.alloc n).2 (blocks ++ Block.answered (h.alloc n).1 n) := by
  by_cases hn : h.fits n = true
  · have hroom := fits_iff.mp hn
    have hstart := toNat_base_add_used hp hlaid.used_le
    have hused := toNat_usedAfter h n
    obtain ⟨hlo, hhi, hround⟩ := roundUp_bounds n.toNat
    have hwhole := hlaid.whole
    rw [alloc_eq_of_fits hn, Block.answered, if_neg (base_add_used_ne_zero hp hlaid.used_le)]
    refine ⟨?_, ?_, fun b hb => ?_, ?_, fun b hb hsize => ?_⟩
    · show (h.usedAfter n).toNat ≤ h.size.toNat
      omega
    · show (h.usedAfter n).toNat % 4 = 0 ∨ (h.usedAfter n).toNat = h.size.toNat
      omega
    · show h.base.toNat ≤ b.start ∧ b.limit ≤ h.base.toNat + (h.usedAfter n).toNat
      rcases List.mem_append.mp hb with hold | hnew
      · have hin := hlaid.inside b hold
        omega
      · rw [List.mem_singleton.mp hnew]
        show h.base.toNat ≤ (h.base + h.used).toNat ∧ (h.base + h.used).toNat + n.toNat ≤ _
        omega
    · refine List.pairwise_append.mpr ⟨hlaid.apart, List.pairwise_singleton _ _, ?_⟩
      intro b hold c hnew
      have hin := hlaid.inside b hold
      rw [List.mem_singleton.mp hnew]
      show b.limit ≤ (h.base + h.used).toNat
      omega
    · rcases List.mem_append.mp hb with hold | hnew
      · exact hlaid.aligned b hold hsize
      · rw [List.mem_singleton.mp hnew] at hsize ⊢
        -- A block of some bytes leaves no room for the second case of `whole`.
        change 0 < n.toNat at hsize
        show (h.base + h.used).toNat % 4 = h.base.toNat % 4
        omega
  · rw [Bool.not_eq_true] at hn
    rw [alloc_eq_of_not_fits hn, Block.answered, if_pos rfl, List.append_nil]
    exact hlaid

/-- Of two different blocks one ends before the other starts. -/
theorem apart_of_ne (hlaid : Laid h blocks) {b c : Block} (hb : b ∈ blocks) (hc : c ∈ blocks)
    (hne : b ≠ c) : b.limit ≤ c.start ∨ c.limit ≤ b.start := by
  have hsymm : Std.Symm fun b c : Block => b.limit ≤ c.start ∨ c.limit ≤ b.start :=
    ⟨fun _ _ => Or.symm⟩
  have hapart : blocks.Pairwise fun b c => b.limit ≤ c.start ∨ c.limit ≤ b.start :=
    hlaid.apart.imp Or.inl
  exact hapart.forall hb hc hne

end Laid

/-! ## Any number of calls -/

/-- A call that a heap serves. -/
inductive Call
  | alloc (n : UInt32)
  | free (addr : UInt32)
  | reset
  deriving DecidableEq, Repr

/-- A heap and the blocks that it handed out since the last reset, oldest first. -/
structure Ledger where
  heap : Heap
  blocks : List Block
  deriving DecidableEq, Repr

namespace Ledger

/-- The ledger of a heap that has not been used. -/
def opened (base size : UInt32) : Ledger := ⟨.fresh base size, []⟩

/-- The ledger after a call. -/
def serve (l : Ledger) : Call → Ledger
  | .alloc n => ⟨(l.heap.alloc n).2, l.blocks ++ Block.answered (l.heap.alloc n).1 n⟩
  | .free addr => { l with heap := (l.heap.free addr).2 }
  | .reset => ⟨l.heap.reset, []⟩

/-- The ledger after some calls, the first of them first. -/
def after (l : Ledger) (calls : List Call) : Ledger := calls.foldl serve l

/-- A ledger of a region whose blocks lie apart. -/
structure Sound (base size : UInt32) (l : Ledger) : Prop where
  base_eq : l.heap.base = base
  size_eq : l.heap.size = size
  laid : Laid l.heap l.blocks

variable {base size : UInt32} {l : Ledger}

theorem Sound.placed (hl : l.Sound base size) (hbase : 0 < base)
    (hfits : base.toNat + size.toNat ≤ 4294967295) : l.heap.Placed := by
  refine ⟨?_, ?_⟩
  · rw [hl.base_eq]
    exact hbase
  · rw [hl.base_eq, hl.size_eq]
    exact hfits

theorem Sound.serve (hl : l.Sound base size) (hbase : 0 < base)
    (hfits : base.toNat + size.toNat ≤ 4294967295) (call : Call) :
    (l.serve call).Sound base size := by
  cases call with
  | alloc n =>
      exact ⟨(base_alloc _ n).trans hl.base_eq, (size_alloc _ n).trans hl.size_eq,
        hl.laid.alloc (hl.placed hbase hfits) n⟩
  | free addr => exact hl
  | reset => exact ⟨hl.base_eq, hl.size_eq, .reset _⟩

theorem Sound.after (hbase : 0 < base) (hfits : base.toNat + size.toNat ≤ 4294967295)
    (calls : List Call) : ∀ l : Ledger, l.Sound base size → (l.after calls).Sound base size := by
  induction calls with
  | nil => intro l hl; exact hl
  | cons call calls ih => intro l hl; exact ih _ (hl.serve hbase hfits call)

end Ledger

/-! ## An allocator that counts without bounds -/

/-- An allocator over the integers that is not held back at the end of its region. -/
structure Bump where
  base : Nat
  size : Nat
  used : Nat
  deriving DecidableEq, Repr

namespace Bump

/-- What `n` bytes lack to a whole number of words. -/
def padding (n : Nat) : Nat := (4 - n % 4) % 4

/-- The address of a new block, or zero, and the allocator after it. -/
def alloc (s : Bump) (n : Nat) : Nat × Bump :=
  if s.used + n > s.size then (0, s)
  else (s.base + s.used, { s with used := s.used + (n + padding n) })

/-- The allocator after a call. -/
def serve (s : Bump) : Call → Bump
  | .alloc n => (s.alloc n.toNat).2
  | .free _ => s
  | .reset => { s with used := 0 }

/-- The allocator after some calls, the first of them first. -/
def after (s : Bump) (calls : List Call) : Bump := calls.foldl serve s

end Bump

theorem roundUp_eq (n : Nat) : roundUp n = n + Bump.padding n := by
  unfold roundUp Bump.padding
  omega

/-- A heap, taken for an allocator that counts without bounds. -/
def exact (h : Heap) : Bump := ⟨h.base.toNat, h.size.toNat, h.used.toNat⟩

/-- In a region of whole words a request is answered as if sizes had no bound. -/
theorem exact_alloc {h : Heap} {blocks : List Block} (hlaid : Laid h blocks) (hp : h.Placed)
    (hsize : 4 ∣ h.size.toNat) (n : UInt32) :
    h.exact.alloc n.toNat = ((h.alloc n).1.toNat, (h.alloc n).2.exact) := by
  by_cases hn : h.fits n = true
  · have hroom := fits_iff.mp hn
    have hwhole := hlaid.whole
    have hused : (h.usedAfter n).toNat = h.used.toNat + (n.toNat + Bump.padding n.toNat) := by
      have hround := roundUp_bounds n.toNat
      rw [toNat_usedAfter, ← roundUp_eq]
      omega
    have hleft : ¬ h.exact.used + n.toNat > h.exact.size := Nat.not_lt.mpr hroom
    rw [alloc_eq_of_fits hn, Bump.alloc, if_neg hleft]
    show (h.base.toNat + h.used.toNat, Bump.mk _ _ _) = ((h.base + h.used).toNat, Bump.mk _ _ _)
    rw [toNat_base_add_used hp hlaid.used_le, hused]
    rfl
  · have hroom : h.exact.used + n.toNat > h.exact.size := Nat.not_le.mp (mt fits_iff.mpr hn)
    rw [Bool.not_eq_true] at hn
    rw [alloc_eq_of_not_fits hn, Bump.alloc, if_pos hroom]
    rfl

section Exact

variable {base size : UInt32}

theorem exact_serve (hbase : 0 < base) (hfits : base.toNat + size.toNat ≤ 4294967295)
    (hsize : 4 ∣ size.toNat) {l : Ledger} (hl : l.Sound base size) (call : Call) :
    l.heap.exact.serve call = (l.serve call).heap.exact := by
  cases call with
  | alloc n =>
      have hsize' : 4 ∣ l.heap.size.toNat := by rwa [hl.size_eq]
      show (l.heap.exact.alloc n.toNat).2 = (l.heap.alloc n).2.exact
      rw [exact_alloc hl.laid (hl.placed hbase hfits) hsize' n]
  | free addr => rfl
  | reset => rfl

theorem exact_after (hbase : 0 < base) (hfits : base.toNat + size.toNat ≤ 4294967295)
    (hsize : 4 ∣ size.toNat) (calls : List Call) : ∀ l : Ledger, l.Sound base size →
      l.heap.exact.after calls = (l.after calls).heap.exact := by
  induction calls with
  | nil => intro l _; rfl
  | cons call calls ih =>
      intro l hl
      show (l.heap.exact.serve call).after calls = ((l.serve call).after calls).heap.exact
      rw [exact_serve hbase hfits hsize hl call]
      exact ih _ (hl.serve hbase hfits call)

end Exact

/-! ## Main result -/

/-- **Blocks lie apart.**  After any requests, returns and resets of a heap whose
region lies within the range of addresses, and not at address zero:

* no more is in use than there is, so that what remains is the difference;
* a request is refused exactly when the bytes in use and those asked for are
  together more than there are, and then the heap stays as it is;
* the blocks since the last reset lie in the region, each one behind all before
  it, and those that are not empty have increasing addresses, which differ from
  the start of the region by whole words;
* and if the region is a whole number of words, then what is in use and how the
  next request is answered are the same as without any bound on the count. -/
theorem blocks_lie_apart {base size : UInt32} (hbase : 0 < base)
    (hfits : base.toNat + size.toNat ≤ 4294967295) (calls : List Call) :
    let l := (Ledger.opened base size).after calls
    let bump := Bump.after ⟨base.toNat, size.toNat, 0⟩ calls
    (l.heap.used ≤ size ∧ l.heap.remaining.toNat + l.heap.used.toNat = size.toNat) ∧
    (∀ n, ((l.heap.alloc n).1 = 0 ↔ size.toNat < l.heap.used.toNat + n.toNat) ∧
      ((l.heap.alloc n).1 = 0 → (l.heap.alloc n).2 = l.heap)) ∧
    (∀ b ∈ l.blocks, base.toNat ≤ b.start ∧ b.limit ≤ base.toNat + size.toNat) ∧
    l.blocks.Pairwise (fun b c => b.limit ≤ c.start) ∧
    (l.blocks.filter (0 < ·.size)).Pairwise (·.addr < ·.addr) ∧
    (∀ b ∈ l.blocks, 0 < b.size → b.start % 4 = base.toNat % 4) ∧
    (4 ∣ size.toNat → bump.used = l.heap.used.toNat ∧
      ∀ n : UInt32, (bump.alloc n.toNat).1 = (l.heap.alloc n).1.toNat) := by
  intro l bump
  have hopened : (Ledger.opened base size).Sound base size := ⟨rfl, rfl, .fresh base size⟩
  have hl : l.Sound base size := .after hbase hfits calls _ hopened
  have hp := hl.placed hbase hfits
  have hle := hl.laid.used_le
  have hsizeNat : l.heap.size.toNat = size.toNat := by rw [hl.size_eq]
  refine ⟨⟨?_, ?_⟩, fun n => ⟨?_, fun hzero => ?_⟩, fun b hb => ?_, hl.laid.apart, ?_,
    fun b hb hb0 => ?_, fun hsize => ?_⟩
  · rw [UInt32.le_iff_toNat_le, ← hsizeNat]
    exact hle
  · rw [remaining, UInt32.toNat_sub_of_le _ _ (UInt32.le_iff_toNat_le.mpr hle), hsizeNat]
    omega
  · rw [← hsizeNat]
    exact alloc_eq_zero_iff hp hle
  · have hroom := (alloc_eq_zero_iff hp hle).mp hzero
    have hn : l.heap.fits n = false := Bool.eq_false_iff.mpr (mt fits_iff.mp (Nat.not_le.mpr hroom))
    rw [alloc_eq_of_not_fits hn]
  · have hin := hl.laid.inside b hb
    rw [hl.base_eq] at hin
    omega
  · rw [List.pairwise_filter]
    refine hl.laid.apart.imp fun {b c} hbc hb0 _ => ?_
    have hpos := UInt32.lt_iff_toNat_lt.mp (of_decide_eq_true hb0)
    rw [UInt32.lt_iff_toNat_lt]
    unfold Block.limit Block.start at hbc
    rw [UInt32.toNat_zero] at hpos
    omega
  · rw [← hl.base_eq]
    exact hl.laid.aligned b hb (UInt32.lt_iff_toNat_lt.mp hb0)
  · have hbump : bump = l.heap.exact := exact_after hbase hfits hsize calls _ hopened
    rw [hbump]
    refine ⟨rfl, fun n => ?_⟩
    rw [exact_alloc hl.laid hp (by rwa [hl.size_eq]) n]

/-- In a region of fourteen bytes the third block begins at the ninth byte, and
the fifth, an empty one, at the end. -/
theorem blocks_lie_apart_fourteen :
    ((Ledger.opened 0x100 14).after
        [.alloc 5, .free 0x100, .alloc 4, .alloc 9, .alloc 2, .alloc 0]).blocks =
      [⟨0x100, 5⟩, ⟨0x108, 4⟩, ⟨0x10C, 2⟩, ⟨0x10E, 0⟩] ∧
    ([⟨0x100, 5⟩, ⟨0x108, 4⟩, ⟨0x10C, 2⟩, ⟨0x10E, 0⟩] : List Block).Pairwise
      (fun b c => b.limit ≤ c.start) := by
  have hblocks : ((Ledger.opened 0x100 14).after
      [.alloc 5, .free 0x100, .alloc 4, .alloc 9, .alloc 2, .alloc 0]).blocks =
        [⟨0x100, 5⟩, ⟨0x108, 4⟩, ⟨0x10C, 2⟩, ⟨0x10E, 0⟩] := by decide +kernel
  have hapart := (@blocks_lie_apart 0x100 14 (by decide) (by decide)
    [.alloc 5, .free 0x100, .alloc 4, .alloc 9, .alloc 2, .alloc 0]).2.2.2.1
  rw [hblocks] at hapart
  exact ⟨hblocks, hapart⟩

end SandboxCpu.Heap
