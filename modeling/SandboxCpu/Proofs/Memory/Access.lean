import SandboxCpu.Machine.Operation
import SandboxCpu.Proofs.Memory.Permission
import SandboxCpu.Proofs.Word.Integer

/-!
# Every access, byte by byte

Memory is accessed in several ways: bytes, words and images are read, written and
loaded.  What each of them comes to is decided by one question, which is asked of
the bytes of its range one by one: does the range lie in the address space, and is
the page of each byte present and does it hold what is asked for (`Permits`)?  A
permitted access has the bytes of the range for its result, or changes them and
nothing else (`Written`); any other is refused with one error and changes nothing.

The check itself goes over pages, whose numbers come from sums and quotients.  As
numbers without bound these cannot go wrong.  A host has words of 64 bits for them,
so the check is also carried out in such words, where every sum, every difference
and every cut out of the page table can fail (`allowsInWords`).  None of them does,
for any address and any size.

## Main results

* `allows_iff_permits`: the check of pages is the question about bytes.
* `allowsInWords_eq`, `rangeInWords_comesTo`: in words of 64 bits it comes to the same,
  and never fails.
* `access_per_byte`: all ways to access memory.
-/

namespace SandboxCpu

theorem Protection.contains_presence (p : Protection) : p.contains .presence = p.present := by
  rcases p with ⟨_ | _, r, w, x⟩ <;> rfl

namespace Memory

/-! ## The question about bytes -/

/-- A range lies in the address space, and the page of each of its bytes is present
and holds what an access asks for. -/
def Permits (m : Memory) (addr : UInt32) (size : Nat) (p : Protection) : Prop :=
  addr.toNat + size ≤ 65536 ∧
    ∀ a, addr.toNat ≤ a → a < addr.toNat + size →
      ∃ q, m.protection (a / 256) = .ok q ∧ q.present = true ∧ q.contains p = true

/-- The permissions of a byte are those in the page table. -/
theorem protection_div (m : Memory) {a : Nat} (ha : a < 65536) :
    m.protection (a / 256) = .ok (m.protectionAt a) := by
  have hpage : a / 256 < 256 := by omega
  rw [protection, dif_pos hpage, ← protectionAt_first m hpage, protectionAt_page m ha]

theorem grants_iff {m : Memory} {p : Protection} {a : Nat} (ha : a < 65536) :
    m.Grants p a ↔
      ∃ q, m.protection (a / 256) = .ok q ∧ q.present = true ∧ q.contains p = true := by
  have hgrants : m.Grants p a ↔
      (m.protectionAt a).present = true ∧ (m.protectionAt a).contains p = true := by
    rw [Grants, Protection.contains_union, Bool.and_eq_true,
      Protection.contains_presence, and_comm]
  rw [hgrants, protection_div m ha]
  constructor
  · intro h
    exact ⟨_, rfl, h⟩
  · rintro ⟨q, hq, h⟩
    cases hq
    exact h

theorem allows_iff_permits {m : Memory} {addr : UInt32} {size : Nat} {p : Protection} :
    m.allows addr size p = true ↔ m.Permits addr size p := by
  rw [allows_iff]
  refine and_congr_right fun hfits => ?_
  constructor
  · intro h a hlo hhi
    exact (grants_iff (by omega)).mp (h a hlo hhi)
  · intro h a hlo hhi
    exact (grants_iff (by omega)).mpr (h a hlo hhi)

/-- An empty range has no bytes to ask about. -/
theorem permits_empty {m : Memory} {addr : UInt32} {p : Protection} :
    m.Permits addr 0 p ↔ addr.toNat ≤ 65536 := by
  constructor
  · exact fun h => h.1
  · intro h
    refine ⟨h, fun a hlo hhi => ?_⟩
    omega

/-! ## The check in words of 64 bits -/

/-- A sum, unless it leaves the words. -/
def checkedAdd (a b : UInt64) : Option UInt64 :=
  if a.toNat + b.toNat < 2 ^ 64 then some (a + b) else none

/-- A difference, unless it leaves the words. -/
def checkedSub (a b : UInt64) : Option UInt64 := if b ≤ a then some (a - b) else none

/-- The part of a list from one place up to another, unless it leaves the list. -/
def slice {α : Type} (xs : List α) (first last : UInt64) : Option (List α) :=
  if first ≤ last ∧ last.toNat ≤ xs.length then
    some ((xs.drop first.toNat).take (last.toNat - first.toNat))
  else none

/-- The page behind the last one that a range touches.  An empty range touches none, and
ends where it begins. -/
def lastInWords (first stop size : UInt64) : Option UInt64 :=
  if size = 0 then some first
  else do checkedAdd ((← checkedSub stop 1) / 256) 1

/-- The check of an access, in words of 64 bits.  A range whose end is no word is
refused; there is no answer at all when something else leaves the words, or when
the pages leave the page table. -/
def allowsInWords (m : Memory) (addr : UInt32) (size : UInt64) (p : Protection) :
    Option Bool :=
  match checkedAdd addr.toUInt64 size with
  | none => some false
  | some stop =>
    if 65536 < stop then some false
    else do
      let first := addr.toUInt64 / 256
      let last ← lastInWords first stop size
      let pages ← slice m.pages.toList first last
      return pages.all fun page => page.protection.contains (p.union .presence)

/-- Where the bytes of an access begin and end, in words of 64 bits. -/
def rangeInWords (m : Memory) (addr : UInt32) (size : UInt64) (p : Protection) :
    Option (Except MemoryError (UInt64 × UInt64)) := do
  if ← m.allowsInWords addr size p then
    return .ok (addr.toUInt64, ← checkedAdd addr.toUInt64 size)
  else return .error (.accessViolation addr size.toNat p)

theorem toNat_checkedAdd {a b c : UInt64} (h : checkedAdd a b = some c) :
    c.toNat = a.toNat + b.toNat := by
  unfold checkedAdd at h
  split at h
  · rename_i hlt
    cases h
    rw [UInt64.toNat_add, Nat.mod_eq_of_lt hlt]
  · cases h

/-- The page behind the last one, as a number. -/
theorem lastInWords_eq (first : UInt64) {stop size : UInt64} (hstop : size.toNat ≤ stop.toNat)
    (hfits : stop.toNat ≤ 65536) :
    ∃ last, lastInWords first stop size = some last ∧
      last.toNat = if size.toNat = 0 then first.toNat else (stop.toNat - 1) / 256 + 1 := by
  have hzero : size = 0 ↔ size.toNat = 0 := UInt64.toNat_inj.symm
  unfold lastInWords
  by_cases hsize : size = 0
  · rw [if_pos hsize, if_pos (hzero.mp hsize)]
    exact ⟨first, rfl, rfl⟩
  · have hpos : size.toNat ≠ 0 := mt hzero.mpr hsize
    have hone : (1 : UInt64) ≤ stop := by
      rw [UInt64.le_iff_toNat_le, UInt64.toNat_one]
      omega
    have hquotient : ((stop - 1) / 256).toNat = (stop.toNat - 1) / 256 := by
      rw [UInt64.toNat_div, UInt64.toNat_sub_of_le _ _ hone]
      rfl
    have hsum : ((stop - 1) / 256).toNat + (1 : UInt64).toNat < 2 ^ 64 := by
      rw [hquotient, UInt64.toNat_one]
      omega
    rw [if_neg hsize, if_neg hpos, checkedSub, if_pos hone]
    refine ⟨(stop - 1) / 256 + 1, if_pos hsum, ?_⟩
    rw [UInt64.toNat_add, Nat.mod_eq_of_lt hsum, hquotient]
    rfl

/-- The pages that a range touches are a part of the page table. -/
theorem touched_eq_slice {first last : UInt64} {addr size : Nat} (hfits : addr + size ≤ 65536)
    (hfirst : first.toNat = addr / 256)
    (hlast : last.toNat = if size = 0 then first.toNat else (addr + size - 1) / 256 + 1)
    (m : Memory) :
    ∃ pages, slice m.pages.toList first last = some pages ∧
      pages.map Page.protection = (touched addr size).map fun page => m.protectionAt (256 * page) := by
  have hbounds : first.toNat ≤ last.toNat ∧ last.toNat ≤ 256 := by
    by_cases hsize : size = 0
    · rw [hlast, if_pos hsize, hfirst]
      omega
    · have hle : addr / 256 ≤ (addr + size - 1) / 256 := Nat.div_le_div_right (by omega)
      rw [hlast, if_neg hsize, hfirst]
      omega
  have hin : first ≤ last ∧ last.toNat ≤ m.pages.toList.length := by
    rw [UInt64.le_iff_toNat_le, Vector.length_toList]
    exact hbounds
  refine ⟨_, if_pos hin, ?_⟩
  have htouched : touched addr size = List.range' first.toNat (last.toNat - first.toNat) := by
    unfold touched
    by_cases hsize : size = 0
    · rw [if_pos hsize, hlast, if_pos hsize, Nat.sub_self]
      rfl
    · rw [if_neg hsize, hlast, if_neg hsize, hfirst]
  rw [htouched]
  apply List.ext_getElem
  · simp only [List.length_map, List.length_take, List.length_drop, Vector.length_toList,
      List.length_range']
    omega
  · intro i hi hi'
    simp only [List.length_map, List.length_range'] at hi'
    have hpage : first.toNat + i < 256 := by omega
    simp only [List.getElem_map, List.getElem_take, List.getElem_drop, Vector.getElem_toList,
      List.getElem_range', Nat.one_mul]
    exact (protectionAt_first m hpage).symm

/-- A range that goes beyond the address space is refused. -/
theorem allows_of_beyond {m : Memory} {addr : UInt32} {size : Nat} {p : Protection}
    (h : 65536 < addr.toNat + size) : m.allows addr size p = false := by
  have hfits : fits addr size = false := decide_eq_false (by omega)
  rw [allows, hfits, Bool.false_and]

/-- A range within the address space is checked on a part of the page table. -/
theorem allows_of_slice {m : Memory} {addr : UInt32} {size : Nat} {p : Protection}
    {pages : List Page} (hfits : addr.toNat + size ≤ 65536)
    (hpages : pages.map Page.protection =
      (touched addr.toNat size).map fun page => m.protectionAt (256 * page)) :
    m.allows addr size p =
      pages.all fun page => page.protection.contains (p.union .presence) := by
  have hall := congrArg (List.all · fun q => q.contains (p.union .presence)) hpages
  simp only [List.all_map, Function.comp_def] at hall
  have hfits' : fits addr size = true := decide_eq_true hfits
  rw [allows, hfits', Bool.true_and, hall]

/-- Carried out in words of 64 bits, the check has an answer, and it is the same. -/
theorem allowsInWords_eq (m : Memory) (addr : UInt32) (size : UInt64) (p : Protection) :
    m.allowsInWords addr size p = some (m.allows addr size.toNat p) := by
  have haddr : addr.toUInt64.toNat = addr.toNat := UInt32.toNat_toUInt64 addr
  have hlimit : (65536 : UInt64).toNat = 65536 := rfl
  unfold allowsInWords
  cases hstop : checkedAdd addr.toUInt64 size with
  | none =>
      have hwraps : 2 ^ 64 ≤ addr.toNat + size.toNat := by
        unfold checkedAdd at hstop
        split at hstop
        · cases hstop
        · omega
      rw [allows_of_beyond (by omega)]
  | some stop =>
      have hvalue := toNat_checkedAdd hstop
      rw [haddr] at hvalue
      by_cases hbeyond : 65536 < stop
      · have hlt := UInt64.lt_iff_toNat_lt.mp hbeyond
        rw [allows_of_beyond (by omega)]
        exact if_pos hbeyond
      · have hle : stop.toNat ≤ 65536 := by
          rw [UInt64.lt_iff_toNat_lt] at hbeyond
          omega
        have hfirst : (addr.toUInt64 / 256).toNat = addr.toNat / 256 := by
          rw [UInt64.toNat_div, haddr]
          rfl
        have hsize : size.toNat ≤ stop.toNat := by omega
        obtain ⟨last, hlast, hlastvalue⟩ := lastInWords_eq (addr.toUInt64 / 256) hsize hle
        rw [hvalue] at hlastvalue
        obtain ⟨pages, hpages, hsame⟩ := touched_eq_slice (by omega) hfirst hlastvalue m
        rw [allows_of_slice (by omega) hsame]
        simp only [hbeyond, ↓reduceIte, hlast, hpages, Option.bind_eq_bind, Option.bind_some]
        rfl

/-! ## What an access comes to -/

/-- The second memory is the first with other bytes from an address on. -/
structure Written (m m' : Memory) (addr : Nat) (bytes : List UInt8) : Prop where
  /-- The bytes are in their places. -/
  inside : ∀ i (h : i < bytes.length), m'.byteAt (addr + i) = bytes[i]
  /-- All other bytes stay. -/
  outside : ∀ a, a < addr ∨ addr + bytes.length ≤ a → m'.byteAt a = m.byteAt a
  /-- So does the page table. -/
  protection : ∀ page, m'.protection page = m.protection page

theorem written_setBytes (m : Memory) {addr : Nat} {bytes : List UInt8}
    (hfits : addr + bytes.length ≤ 65536) : Written m (m.setBytes addr bytes) addr bytes where
  inside := by
    intro i hi
    rw [byteAt_setBytes m addr (addr + i) bytes hfits, if_pos (Nat.le_add_right _ _),
      Nat.add_sub_cancel_left, List.getElem?_eq_getElem hi, Option.getD_some]
  outside := fun a ha => byteAt_setBytes_outside hfits ha
  protection := protection_congr fun a => protectionAt_setBytes m addr a bytes

/-- An access comes to a value with a property where it is permitted, and to one error
where it is not. -/
def ComesTo {α : Type} (x : Except MemoryError α) (permitted : Prop) (value : α → Prop)
    (error : MemoryError) : Prop :=
  match x with
  | .ok a => permitted ∧ value a
  | .error e => ¬ permitted ∧ e = error

theorem comesTo_of_check {α : Type} {check : Bool} {permitted : Prop} {value : α → Prop}
    {error : MemoryError} {a : α} (hcheck : check = true ↔ permitted)
    (hvalue : permitted → value a) :
    ComesTo (if check then .ok a else .error error) permitted value error := by
  cases check with
  | true => exact ⟨hcheck.mp rfl, hvalue (hcheck.mp rfl)⟩
  | false =>
      have hnot : ¬ permitted := fun h => Bool.noConfusion (hcheck.mpr h)
      exact ⟨hnot, rfl⟩

section Accesses

variable (m : Memory) (addr : UInt32) (p : Protection)

/-- Worked out in words of 64 bits, the range of an access is where its bytes are. -/
theorem rangeInWords_comesTo (size : UInt64) :
    ∃ x, m.rangeInWords addr size p = some x ∧
      ComesTo x (m.Permits addr size.toNat p)
        (fun r => r.1.toNat = addr.toNat ∧ r.2.toNat = addr.toNat + size.toNat)
        (.accessViolation addr size.toNat p) := by
  have haddr : addr.toUInt64.toNat = addr.toNat := UInt32.toNat_toUInt64 addr
  have hcheck : m.allows addr size.toNat p = true ↔ m.Permits addr size.toNat p :=
    allows_iff_permits
  unfold rangeInWords
  rw [allowsInWords_eq]
  cases hallows : m.allows addr size.toNat p with
  | false =>
      have hnot : ¬ m.Permits addr size.toNat p := by
        rw [← hcheck, hallows]
        exact Bool.false_ne_true
      exact ⟨_, rfl, hnot, rfl⟩
  | true =>
      have hpermits := hcheck.mp hallows
      have hfits := hpermits.1
      have hsum : addr.toUInt64.toNat + size.toNat < 2 ^ 64 := by omega
      have hstop : checkedAdd addr.toUInt64 size = some (addr.toUInt64 + size) := if_pos hsum
      have hvalue := toNat_checkedAdd hstop
      rw [haddr] at hvalue
      simp only [Option.bind_eq_bind, Option.bind_some, ↓reduceIte, hstop]
      exact ⟨_, rfl, hpermits, haddr, hvalue⟩

theorem read_comesTo (size : Nat) :
    ComesTo (m.read addr size p) (m.Permits addr size p)
      (fun bytes => bytes = (List.range size).map fun i => m.byteAt (addr.toNat + i))
      (.accessViolation addr size p) := by
  refine comesTo_of_check allows_iff_permits fun _ => ?_
  rw [bytesAt, List.range'_eq_map_range, List.map_map]
  rfl

theorem write_comesTo (bytes : List UInt8) :
    ComesTo (m.write addr bytes p) (m.Permits addr bytes.length p)
      (fun m' => m.Written m' addr.toNat bytes) (.accessViolation addr bytes.length p) :=
  comesTo_of_check allows_iff_permits fun h => m.written_setBytes h.1

theorem readWord_comesTo :
    ComesTo (m.readWord addr p) (m.Permits addr 4 p)
      (fun w => w.toNat = (m.byteAt addr.toNat).toNat + 256 * (m.byteAt (addr.toNat + 1)).toNat +
        256 ^ 2 * (m.byteAt (addr.toNat + 2)).toNat + 256 ^ 3 * (m.byteAt (addr.toNat + 3)).toNat)
      (.accessViolation addr 4 p) :=
  comesTo_of_check allows_iff_permits fun _ => m.toNat_wordAt addr.toNat

theorem readByte_comesTo :
    ComesTo (m.readByte addr p) (m.Permits addr 1 p) (fun b => b = m.byteAt addr.toNat)
      (.accessViolation addr 1 p) :=
  comesTo_of_check allows_iff_permits fun _ => rfl

theorem writeWord_comesTo (value : UInt32) :
    ComesTo (m.writeWord addr value p) (m.Permits addr 4 p)
      (fun m' => m.Written m' addr.toNat
        ((List.range 4).map fun i => UInt8.ofNat (value.toNat / 256 ^ i)))
      (.accessViolation addr 4 p) := by
  rw [← LittleEndian.bytes_eq]
  exact m.write_comesTo addr p (LittleEndian.bytes value)

theorem writeByte_comesTo (value : UInt8) :
    ComesTo (m.writeByte addr value p) (m.Permits addr 1 p)
      (fun m' => m.Written m' addr.toNat [value]) (.accessViolation addr 1 p) :=
  m.write_comesTo addr p [value]

end Accesses

/-! ## Loading an image -/

/-- One of the bytes of a range is on a page that is not present. -/
def TouchesAbsent (m : Memory) (addr : UInt32) (size : Nat) : Prop :=
  ∃ a, addr.toNat ≤ a ∧ a < addr.toNat + size ∧
    ∃ q, m.protection (a / 256) = .ok q ∧ q.present = false

/-- Nothing but an absent page keeps an image out of the address space. -/
theorem not_permits_presence_iff {m : Memory} {addr : UInt32} {size : Nat}
    (hfits : addr.toNat + size ≤ 65536) :
    ¬ m.Permits addr size .presence ↔ m.TouchesAbsent addr size := by
  constructor
  · intro h
    by_cases habsent : m.TouchesAbsent addr size
    · exact habsent
    · refine absurd ⟨hfits, fun a hlo hhi => ?_⟩ h
      have hprotection := m.protection_div (a := a) (by omega)
      have hpresent : (m.protectionAt a).present = true := by
        rw [← Bool.not_eq_false]
        exact fun hfalse => habsent ⟨a, hlo, hhi, _, hprotection, hfalse⟩
      refine ⟨_, hprotection, hpresent, ?_⟩
      rw [Protection.contains_presence]
      exact hpresent
  · rintro ⟨a, hlo, hhi, q, hq, hfalse⟩ hpermits
    obtain ⟨q', hq', htrue, -⟩ := hpermits.2 a hlo hhi
    rw [hq] at hq'
    cases hq'
    rw [hfalse] at htrue
    cases htrue

/-- An image is out of range, or it touches an absent page, or it is written. -/
theorem load_cases (m : Memory) (addr : UInt32) (image : List UInt8) :
    match m.load addr image with
    | .ok m' => addr.toNat + image.length ≤ 65536 ∧ ¬ m.TouchesAbsent addr image.length ∧
        m.Written m' addr.toNat image
    | .error e =>
      (65536 < addr.toNat + image.length ∧ e = .outOfRange addr image.length) ∨
        (addr.toNat + image.length ≤ 65536 ∧ m.TouchesAbsent addr image.length ∧
          e = .accessViolation addr image.length .presence) := by
  unfold load
  by_cases hfits : addr.toNat + image.length ≤ 65536
  · have hfits' : fits addr image.length = true := decide_eq_true hfits
    have hiff := not_permits_presence_iff (m := m) hfits
    have hwrite := m.write_comesTo addr .presence image
    rw [if_pos hfits']
    cases hx : m.write addr image .presence with
    | error e =>
        rw [hx] at hwrite
        exact .inr ⟨hfits, hiff.mp hwrite.1, hwrite.2⟩
    | ok m' =>
        rw [hx] at hwrite
        exact ⟨hfits, fun habsent => hiff.mpr habsent hwrite.1, hwrite.2⟩
  · have hfits' : ¬ fits addr image.length = true := by
      simpa only [fits, decide_eq_true_eq] using hfits
    rw [if_neg hfits']
    exact .inl ⟨by omega, rfl⟩

end Memory

/-! ## The machine around it -/

namespace Machine

variable {κ : Type} [Console κ]

/-- A machine gets the memory that was written or loaded, and stays as it is where that
is refused. -/
theorem perform_write (v : Machine κ) (addr : UInt32) (bytes : List UInt8) :
    v.perform (.write addr bytes) =
      match v.memory.write addr bytes .writing with
      | .ok memory => (.done, { v with memory })
      | .error e => (.memoryError e, v) := by
  simp only [perform, writeMemory]
  cases v.memory.write addr bytes .writing <;> rfl

theorem perform_load (v : Machine κ) (addr : UInt32) (image : List UInt8) :
    v.perform (.load addr image) =
      match v.memory.load addr image with
      | .ok memory => (.done, { v with memory })
      | .error e => (.memoryError e, v) := by
  simp only [perform, loadProgram]
  cases v.memory.load addr image <;> rfl

end Machine

/-! ## Main result -/

namespace Memory

/-- **Memory is accessed byte by byte.**  For any address, any size and anything asked
for, an access is permitted exactly when its range lies in the address space and
the page of each of its bytes is present and holds what is asked for; an empty one,
when its address is not behind the end of memory.  Words of 64 bits are enough to
check this: nothing leaves them, or the page table.

What is permitted has the bytes of the range for its result, or puts them in their
places and changes nothing else.  Words are numbers in base 256, the lowest byte first.
What is not permitted is refused.  Loading asks only for presence, and tells an image
that is out of range from one that touches an absent page.  A machine whose host is
refused stays as it is. -/
theorem access_per_byte (m : Memory) (addr : UInt32) (p : Protection) :
    (∀ size, m.allows addr size p = true ↔ m.Permits addr size p) ∧
    (m.allows addr 0 p = true ↔ addr.toNat ≤ 65536) ∧
    (∀ size : UInt64, m.allowsInWords addr size p = some (m.allows addr size.toNat p) ∧
      ∃ x, m.rangeInWords addr size p = some x ∧
        ComesTo x (m.Permits addr size.toNat p)
          (fun r => r.1.toNat = addr.toNat ∧ r.2.toNat = addr.toNat + size.toNat)
          (.accessViolation addr size.toNat p)) ∧
    (∀ size, ComesTo (m.read addr size p) (m.Permits addr size p)
      (fun bytes => bytes = (List.range size).map fun i => m.byteAt (addr.toNat + i))
      (.accessViolation addr size p)) ∧
    (∀ bytes, ComesTo (m.write addr bytes p) (m.Permits addr bytes.length p)
      (fun m' => m.Written m' addr.toNat bytes) (.accessViolation addr bytes.length p)) ∧
    ComesTo (m.readWord addr p) (m.Permits addr 4 p)
      (fun w => w.toNat = (m.byteAt addr.toNat).toNat + 256 * (m.byteAt (addr.toNat + 1)).toNat +
        256 ^ 2 * (m.byteAt (addr.toNat + 2)).toNat + 256 ^ 3 * (m.byteAt (addr.toNat + 3)).toNat)
      (.accessViolation addr 4 p) ∧
    (∀ value : UInt32, ComesTo (m.writeWord addr value p) (m.Permits addr 4 p)
      (fun m' => m.Written m' addr.toNat
        ((List.range 4).map fun i => UInt8.ofNat (value.toNat / 256 ^ i)))
      (.accessViolation addr 4 p)) ∧
    ComesTo (m.readByte addr p) (m.Permits addr 1 p) (fun b => b = m.byteAt addr.toNat)
      (.accessViolation addr 1 p) ∧
    (∀ value, ComesTo (m.writeByte addr value p) (m.Permits addr 1 p)
      (fun m' => m.Written m' addr.toNat [value]) (.accessViolation addr 1 p)) ∧
    (∀ image, match m.load addr image with
      | .ok m' => addr.toNat + image.length ≤ 65536 ∧ ¬ m.TouchesAbsent addr image.length ∧
          m.Written m' addr.toNat image
      | .error e =>
        (65536 < addr.toNat + image.length ∧ e = .outOfRange addr image.length) ∨
          (addr.toNat + image.length ≤ 65536 ∧ m.TouchesAbsent addr image.length ∧
            e = .accessViolation addr image.length .presence)) ∧
    ∀ {κ : Type} [Console κ] (v : Machine κ) (bytes : List UInt8) (e : MemoryError),
      (v.memory.write addr bytes .writing = .error e →
        v.perform (.write addr bytes) = (.memoryError e, v)) ∧
      (v.memory.load addr bytes = .error e → v.perform (.load addr bytes) = (.memoryError e, v)) := by
  refine ⟨fun size => allows_iff_permits, allows_iff_permits.trans permits_empty,
    fun size => ⟨m.allowsInWords_eq addr size p, m.rangeInWords_comesTo addr p size⟩,
    m.read_comesTo addr p, m.write_comesTo addr p, m.readWord_comesTo addr p,
    m.writeWord_comesTo addr p, m.readByte_comesTo addr p, m.writeByte_comesTo addr p,
    m.load_cases addr, fun v bytes e => ⟨fun h => ?_, fun h => ?_⟩⟩
  · rw [v.perform_write, h]
  · rw [v.perform_load, h]

end Memory

end SandboxCpu
