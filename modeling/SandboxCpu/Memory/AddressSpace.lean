import SandboxCpu.Memory.Protection
import SandboxCpu.Text.Hex
import SandboxCpu.Word.LittleEndian
/-!
# The paged address space

64 KiB of memory in 256 pages of 256 bytes. Every access, of the guest or of its host, goes through
`Memory.allows`: the range must lie inside the address space, and every page that it touches must be
present and grant what the access asks for. An empty access touches no page.

The lowest quarter holds code and may be read and executed; the next half is the heap and the top
eighth the stack, both for reading and writing; the eighth between them is not present.

## Main definitions

* `Memory.byteAt` and `Memory.protectionAt`, the contents and the permissions seen byte by byte;
* `Memory.allows`, `Memory.read` and `Memory.write`;
* `Memory.load`, which puts an image into memory and asks only that its pages are present.
-/

namespace SandboxCpu

/-- Why memory refuses an access. -/
inductive MemoryError
  /-- A touched page lacks a permission, or the range leaves the address space. -/
  | accessViolation (addr : UInt32) (size : Nat) (required : Protection)
  /-- An image does not fit into the address space. -/
  | outOfRange (addr : UInt32) (size : Nat)
  | invalidPage (page : Nat)
  deriving DecidableEq, Repr

/-- The wording of a memory error. -/
def MemoryError.message : MemoryError → String
  | accessViolation addr size required =>
    "内存访问违例: 地址 " ++ Text.address addr ++ ", 大小 " ++ toString size ++ ", 需要权限 " ++
      required.text
  | outOfRange addr size =>
    "内存访问越界: 地址 " ++ Text.hex0x 1 addr.toNat ++ ", 大小 " ++ toString size
  | invalidPage page => "无效的页号: " ++ toString page

/-- A page of memory. -/
@[ext] structure Page where
  protection : Protection
  bytes : Vector UInt8 256
  deriving DecidableEq

/-- The paged address space. -/
structure Memory where
  /-- The pages, by number. -/
  pages : Vector Page 256
  deriving DecidableEq

namespace Memory

/-- The number of bytes in the address space. -/
def size : Nat := 65536

/-- The start of the heap. -/
def heapBase : UInt32 := 0x4000

/-- The size of the heap. -/
def heapSize : UInt32 := 0x8000

/-- Where the stack pointer starts. The stack grows downwards. -/
def stackTop : UInt32 := 0xFFFC

/-- The permissions that a page has at first. -/
def initialProtection (page : Nat) : Protection :=
  if page < 64 then { present := true, read := true, execute := true }
  else if page < 192 then { present := true, read := true, write := true }
  else if page < 224 then .none
  else { present := true, read := true, write := true }

/-- Zeroed memory in the first layout. -/
def initial : Memory where
  pages := Vector.ofFn fun i => ⟨initialProtection i, Vector.replicate 256 0⟩

/-! ## The byte view -/

/-- The byte at an address; zero outside the address space. -/
def byteAt (m : Memory) (a : Nat) : UInt8 :=
  if h : a < 65536 then (m.pages[a / 256]).bytes[a % 256] else 0

/-- The permissions of the page that holds an address; none outside the address space. -/
def protectionAt (m : Memory) (a : Nat) : Protection :=
  if h : a < 65536 then (m.pages[a / 256]).protection else .none

/-- The memory with another byte at an address; the same memory outside the address space. -/
def setByte (m : Memory) (a : Nat) (value : UInt8) : Memory where
  pages := ⟨m.pages.toArray.modify (a / 256) fun page =>
    { page with bytes := page.bytes.set (a % 256) value (Nat.mod_lt a (by decide)) },
    by simp⟩

/-! ## Access -/

/-- The pages that `size` bytes from `addr` touch. -/
def touched (addr size : Nat) : List Nat :=
  if size = 0 then [] else List.range' (addr / 256) ((addr + size - 1) / 256 + 1 - addr / 256)

/-- Whether `size` bytes from `addr` lie in the address space. -/
def fits (addr : UInt32) (size : Nat) : Bool := addr.toNat + size ≤ 65536

/-- Whether the range lies in the address space and every page that it touches is present and grants
what is required. -/
def allows (m : Memory) (addr : UInt32) (size : Nat) (required : Protection) : Bool :=
  fits addr size &&
    (touched addr.toNat size).all fun page =>
      (m.protectionAt (256 * page)).contains (required.union .presence)

/-- The bytes of a range, whatever its permissions. -/
def bytesAt (m : Memory) (addr size : Nat) : List UInt8 :=
  (List.range' addr size).map m.byteAt

/-- The memory with other bytes from an address on, whatever the permissions. -/
def setBytes (m : Memory) (addr : Nat) : List UInt8 → Memory
  | [] => m
  | b :: bs => setBytes (m.setByte addr b) (addr + 1) bs

/-- Reads `size` bytes. -/
def read (m : Memory) (addr : UInt32) (size : Nat) (required : Protection) :
    Except MemoryError (List UInt8) :=
  if m.allows addr size required then .ok (m.bytesAt addr.toNat size)
  else .error (.accessViolation addr size required)

/-- Writes bytes: all of them, or none when the access is refused. -/
def write (m : Memory) (addr : UInt32) (bytes : List UInt8) (required : Protection) :
    Except MemoryError Memory :=
  if m.allows addr bytes.length required then .ok (m.setBytes addr.toNat bytes)
  else .error (.accessViolation addr bytes.length required)

/-- The word in four bytes, least significant first, whatever the permissions. -/
def wordAt (m : Memory) (addr : Nat) : UInt32 :=
  LittleEndian.word (m.byteAt addr) (m.byteAt (addr + 1)) (m.byteAt (addr + 2)) (m.byteAt (addr + 3))

/-- Reads a word. -/
def readWord (m : Memory) (addr : UInt32) (required : Protection) : Except MemoryError UInt32 :=
  if m.allows addr 4 required then .ok (m.wordAt addr.toNat)
  else .error (.accessViolation addr 4 required)

/-- Writes a word, least significant byte first. -/
def writeWord (m : Memory) (addr value : UInt32) (required : Protection) :
    Except MemoryError Memory :=
  m.write addr (LittleEndian.bytes value) required

/-- Reads a byte. -/
def readByte (m : Memory) (addr : UInt32) (required : Protection) : Except MemoryError UInt8 :=
  if m.allows addr 1 required then .ok (m.byteAt addr.toNat)
  else .error (.accessViolation addr 1 required)

/-- Writes a byte. -/
def writeByte (m : Memory) (addr : UInt32) (value : UInt8) (required : Protection) :
    Except MemoryError Memory :=
  m.write addr [value] required

/-- Puts an image into memory. Its pages need only be present; an image that leaves the address
space is out of range. -/
def load (m : Memory) (addr : UInt32) (image : List UInt8) : Except MemoryError Memory :=
  if fits addr image.length then m.write addr image .presence
  else .error (.outOfRange addr image.length)

/-! ## The page table -/

/-- The permissions of a page. -/
def protection (m : Memory) (page : Nat) : Except MemoryError Protection :=
  if h : page < 256 then .ok m.pages[page].protection else .error (.invalidPage page)

/-- Replaces the permissions of a page. -/
def setProtection (m : Memory) (page : Nat) (p : Protection) : Except MemoryError Memory :=
  if page < 256 then
    .ok ⟨⟨m.pages.toArray.modify page fun old => { old with protection := p }, by simp⟩⟩
  else .error (.invalidPage page)

/-! ## The byte view after a change -/

theorem byteAt_setByte (m : Memory) (a b : Nat) (value : UInt8) :
    (m.setByte a value).byteAt b = if a = b ∧ b < 65536 then value else m.byteAt b := by
  unfold byteAt
  by_cases hb : b < 65536
  · simp only [hb, ↓reduceDIte, and_true, setByte, Vector.getElem_mk, Array.getElem_modify]
    by_cases hp : a / 256 = b / 256
    · simp only [hp, ↓reduceIte, Vector.getElem_set, Vector.getElem_toArray]
      by_cases hr : a % 256 = b % 256
      · have : a = b := by omega
        simp [this]
      · have : a ≠ b := fun h => hr (by rw [h])
        simp [hr, this]
    · have : a ≠ b := fun h => hp (by rw [h])
      simp [hp, this]
  · simp [hb]

theorem protectionAt_setByte (m : Memory) (a b : Nat) (value : UInt8) :
    (m.setByte a value).protectionAt b = m.protectionAt b := by
  unfold protectionAt
  by_cases hb : b < 65536
  · simp only [hb, ↓reduceDIte, setByte, Vector.getElem_mk, Array.getElem_modify]
    split <;> simp
  · simp [hb]

@[simp] theorem protectionAt_setBytes (m : Memory) (a b : Nat) (bytes : List UInt8) :
    (m.setBytes a bytes).protectionAt b = m.protectionAt b := by
  induction bytes generalizing m a with
  | nil => rfl
  | cons x xs ih => rw [setBytes, ih, protectionAt_setByte]

/-- Writing bytes changes those of the range, in order, and no other. -/
theorem byteAt_setBytes (m : Memory) (a b : Nat) (bytes : List UInt8)
    (h : a + bytes.length ≤ 65536) :
    (m.setBytes a bytes).byteAt b =
      if a ≤ b then (bytes[b - a]?).getD (m.byteAt b) else m.byteAt b := by
  induction bytes generalizing m a with
  | nil => simp [setBytes]
  | cons x xs ih =>
    simp only [List.length_cons] at h
    rw [setBytes, ih _ _ (by omega), byteAt_setByte]
    by_cases hab : a = b
    · subst hab
      have : ¬a + 1 ≤ a := by omega
      simp only [this, ↓reduceIte, true_and, Nat.le_refl, Nat.sub_self, List.getElem?_cons_zero,
        Option.getD_some]
      rw [if_pos (by omega)]
    · simp only [hab, false_and, ↓reduceIte]
      by_cases hle : a ≤ b
      · have h₁ : a + 1 ≤ b := by omega
        have h₂ : b - a = (b - (a + 1)) + 1 := by omega
        simp [hle, h₁, h₂]
      · have h₁ : ¬a + 1 ≤ b := by omega
        simp [hle, h₁]

end Memory

end SandboxCpu
