import SandboxCpu.Memory.AddressSpace

/-!
# Permissions, byte by byte

An access is checked page by page.  Here the check is read byte by byte: it
succeeds exactly when the range lies in the address space and the page of each
of its bytes is present and grants what the access asks for.

Two relations between memories rest on that reading.

* `Memory.Confines m m'`: all that changed from `m` to `m'` are bytes which the
  guest may write, and the page table is the same.
* `Memory.AgreesOn visible m m'`: the two have one page table and the same
  bytes at the visible addresses, among which are all that the guest may read.

## Main results

* `allows_iff` — the page check says the same as the check of every byte.
* `Confines.of_write` — a permitted write is confined.
* `AgreesOn.write`, `AgreesOn.read_eq` — memories that agree are read alike,
  and still agree after the same write.
-/

namespace SandboxCpu

/-- Two outcomes side by side: both the same error, or both values, which are
then related. -/
inductive Matches {ε α β : Type} (R : α → β → Prop) : Except ε α → Except ε β → Prop
  /-- Both fail, with the same error. -/
  | error (e : ε) : Matches R (.error e) (.error e)
  /-- Both succeed, with related values. -/
  | ok {a : α} {b : β} (h : R a b) : Matches R (.ok a) (.ok b)

/-- Matching outcomes still match after what comes next, if that makes matching
outcomes of related values. -/
theorem Matches.bind {ε α β α' β' : Type} {R : α → β → Prop} {S : α' → β' → Prop}
    {x : Except ε α} {y : Except ε β} {f : α → Except ε α'} {g : β → Except ε β'}
    (hxy : Matches R x y) (hfg : ∀ a b, R a b → Matches S (f a) (g b)) :
    Matches S (x >>= f) (y >>= g) := by
  cases hxy with
  | error e => exact .error e
  | ok h => exact hfg _ _ h

/-- The two ways in which outcomes match, as equations. -/
theorem Matches.elim {ε α β : Type} {R : α → β → Prop} {x : Except ε α} {y : Except ε β}
    (h : Matches R x y) :
    (∃ e, x = .error e ∧ y = .error e) ∨ ∃ a b, x = .ok a ∧ y = .ok b ∧ R a b := by
  cases h with
  | error e => exact .inl ⟨e, rfl, rfl⟩
  | ok h => exact .inr ⟨_, _, rfl, rfl, h⟩

namespace Memory

/-! ## The page check seen from a byte -/

/-- The page of the byte at an address is present and grants a permission.
Outside the address space nothing is granted. -/
def Grants (m : Memory) (p : Protection) (a : Nat) : Prop :=
  (m.protectionAt a).contains (p.union .presence) = true

instance (m : Memory) (p : Protection) (a : Nat) : Decidable (m.Grants p a) := by
  unfold Grants
  infer_instance

/-- All bytes of a page have the permissions of its first. -/
theorem protectionAt_page (m : Memory) {a : Nat} (ha : a < 65536) :
    m.protectionAt (256 * (a / 256)) = m.protectionAt a := by
  have hpage : 256 * (a / 256) < 65536 := by omega
  have hdiv : 256 * (a / 256) / 256 = a / 256 := by omega
  simp only [protectionAt, hpage, ha, ↓reduceDIte, hdiv]

/-- The permissions of a page, seen from its first byte. -/
theorem protectionAt_first (m : Memory) {page : Nat} (hpage : page < 256) :
    m.protectionAt (256 * page) = m.pages[page].protection := by
  have hfits : 256 * page < 65536 := by omega
  have hdiv : 256 * page / 256 = page := by omega
  simp only [protectionAt, hfits, ↓reduceDIte, hdiv]

/-- A page is touched exactly when one of the bytes lies on it. -/
theorem mem_touched_iff {addr size page : Nat} :
    page ∈ touched addr size ↔ ∃ a, addr ≤ a ∧ a < addr + size ∧ a / 256 = page := by
  unfold touched
  by_cases hsize : size = 0
  · simp only [hsize, ↓reduceIte, List.not_mem_nil, false_iff]
    rintro ⟨a, hlo, hhi, -⟩
    omega
  · simp only [hsize, ↓reduceIte, List.mem_range'_1]
    constructor
    · rintro ⟨hlo, hhi⟩
      -- The first byte of the range on this page.
      exact ⟨max addr (256 * page), by omega, by omega, by omega⟩
    · rintro ⟨a, hlo, hhi, rfl⟩
      have hfirst : addr / 256 ≤ a / 256 := Nat.div_le_div_right hlo
      have hlast : a / 256 ≤ (addr + size - 1) / 256 :=
        Nat.div_le_div_right (by omega)
      omega

/-- An access is allowed exactly when its range lies in the address space and
every byte of it grants what the access asks for. -/
theorem allows_iff {m : Memory} {addr : UInt32} {size : Nat} {p : Protection} :
    m.allows addr size p = true ↔
      addr.toNat + size ≤ 65536 ∧
        ∀ a, addr.toNat ≤ a → a < addr.toNat + size → m.Grants p a := by
  simp only [allows, fits, Bool.and_eq_true, decide_eq_true_eq, List.all_eq_true]
  refine and_congr_right fun hfits => ?_
  constructor
  · intro h a hlo hhi
    have hpage := h (a / 256) (mem_touched_iff.mpr ⟨a, hlo, hhi, rfl⟩)
    rwa [protectionAt_page m (by omega)] at hpage
  · intro h page hpage
    obtain ⟨a, hlo, hhi, rfl⟩ := mem_touched_iff.mp hpage
    rw [protectionAt_page m (by omega)]
    exact h a hlo hhi

/-- All bytes of a range lie in the address space and grant a permission. -/
def Granted (m : Memory) (p : Protection) (addr : UInt32) (size : Nat) : Prop :=
  addr.toNat + size ≤ 65536 ∧ ∀ a, addr.toNat ≤ a → a < addr.toNat + size → m.Grants p a

instance (m : Memory) (p : Protection) (addr : UInt32) (size : Nat) :
    Decidable (m.Granted p addr size) :=
  decidable_of_iff _ allows_iff

theorem Granted.mono {m : Memory} {p : Protection} {addr : UInt32} {size size' : Nat}
    (h : m.Granted p addr size) (hle : size' ≤ size) : m.Granted p addr size' :=
  ⟨by have := h.1; omega, fun a hlo hhi => h.2 a hlo (by omega)⟩

/-- A permission that includes reading grants reading. -/
theorem Grants.reading_of {m : Memory} {p : Protection} {a : Nat} (hp : p.read = true)
    (h : m.Grants p a) : m.Grants .reading a := by
  simp only [Grants, Protection.contains, Protection.union, Protection.reading,
    Protection.presence, Bool.and_eq_true, Bool.or_eq_true, Bool.not_eq_true'] at h ⊢
  simp_all

/-- To grant writing is to be present and writable. -/
theorem grants_writing_iff {m : Memory} {a : Nat} :
    m.Grants .writing a ↔
      (m.protectionAt a).present = true ∧ (m.protectionAt a).write = true := by
  unfold Grants
  rcases m.protectionAt a with ⟨p, r, w, x⟩
  simp [Protection.contains, Protection.union, Protection.writing, Protection.presence]

theorem Grants.congr {m m' : Memory} {a : Nat}
    (h : m'.protectionAt a = m.protectionAt a) (p : Protection) :
    m'.Grants p a ↔ m.Grants p a := by
  unfold Grants
  rw [h]

/-! ## Reading within the permissions -/

section Congruence

variable {m m' : Memory} {p : Protection}

/-- The check looks at nothing but the permissions. -/
theorem allows_congr (h : ∀ a, m'.protectionAt a = m.protectionAt a)
    (addr : UInt32) (size : Nat) (p : Protection) :
    m'.allows addr size p = m.allows addr size p := by
  simp only [allows, h]

/-- What is read depends on nothing but the permissions and the granted bytes. -/
theorem read_congr (h : ∀ a, m'.protectionAt a = m.protectionAt a)
    (hbyte : ∀ a, m.Grants p a → m'.byteAt a = m.byteAt a) (addr : UInt32) (size : Nat) :
    m'.read addr size p = m.read addr size p := by
  unfold read
  rw [allows_congr h]
  split
  · rename_i hallows
    have hbytes : m'.bytesAt addr.toNat size = m.bytesAt addr.toNat size := by
      unfold bytesAt
      apply List.map_congr_left
      intro a ha
      rw [List.mem_range'_1] at ha
      exact hbyte a ((allows_iff.mp hallows).2 a ha.1 ha.2)
    rw [hbytes]
  · rfl

theorem readWord_congr (h : ∀ a, m'.protectionAt a = m.protectionAt a)
    (hbyte : ∀ a, m.Grants p a → m'.byteAt a = m.byteAt a) (addr : UInt32) :
    m'.readWord addr p = m.readWord addr p := by
  unfold readWord
  rw [allows_congr h]
  split
  · rename_i hallows
    have hword : ∀ i, i < 4 → m'.byteAt (addr.toNat + i) = m.byteAt (addr.toNat + i) :=
      fun i hi => hbyte _ ((allows_iff.mp hallows).2 _ (by omega) (by omega))
    have h0 := hword 0 (by decide)
    rw [Nat.add_zero] at h0
    simp only [wordAt, h0, hword 1 (by decide), hword 2 (by decide), hword 3 (by decide)]
  · rfl

theorem readByte_congr (h : ∀ a, m'.protectionAt a = m.protectionAt a)
    (hbyte : ∀ a, m.Grants p a → m'.byteAt a = m.byteAt a) (addr : UInt32) :
    m'.readByte addr p = m.readByte addr p := by
  unfold readByte
  rw [allows_congr h]
  split
  · rename_i hallows
    rw [hbyte _ ((allows_iff.mp hallows).2 _ (Nat.le_refl _) (by omega))]
  · rfl

/-- The page table is the permissions seen from the bytes. -/
theorem protection_congr (h : ∀ a, m'.protectionAt a = m.protectionAt a) (page : Nat) :
    m'.protection page = m.protection page := by
  unfold protection
  split
  · rename_i hpage
    rw [← protectionAt_first m' hpage, ← protectionAt_first m hpage, h]
  · rfl

theorem readWord_eq_ok_iff {addr word : UInt32} :
    m.readWord addr p = .ok word ↔
      m.allows addr 4 p = true ∧ word = m.wordAt addr.toNat := by
  unfold readWord
  split
  · rename_i h
    simp only [Except.ok.injEq, h, true_and, eq_comm]
  · rename_i h
    simp only [reduceCtorEq, h, false_and, Bool.false_eq_true]

end Congruence

/-! ## Memory as its two views -/

/-- The contents of a page, seen byte by byte. -/
theorem byteAt_page (m : Memory) {page r : Nat} (hpage : page < 256) (hr : r < 256) :
    m.byteAt (256 * page + r) = m.pages[page].bytes[r] := by
  have hfits : 256 * page + r < 65536 := by omega
  have hdiv : (256 * page + r) / 256 = page := by omega
  have hmod : (256 * page + r) % 256 = r := by omega
  simp only [byteAt, hfits, ↓reduceDIte, hdiv, hmod]

/-- The permissions of a byte in the first layout. -/
theorem protectionAt_initial {a : Nat} (ha : a < 65536) :
    initial.protectionAt a = initialProtection (a / 256) := by
  simp only [protectionAt, ha, ↓reduceDIte, initial, Vector.getElem_ofFn]

/-- A page gets the permissions that it is given, and no other page does. -/
theorem protectionAt_setProtection {m m' : Memory} {page : Nat} {p : Protection}
    (h : m.setProtection page p = .ok m') (a : Nat) :
    m'.protectionAt a = if a < 65536 ∧ a / 256 = page then p else m.protectionAt a := by
  unfold setProtection at h
  split at h
  · cases h
    unfold protectionAt
    by_cases ha : a < 65536
    · simp only [ha, ↓reduceDIte, true_and, Vector.getElem_mk, Array.getElem_modify, eq_comm]
      split <;> simp
    · simp [ha]
  · cases h

/-- A memory is determined by its bytes and the permissions on them. -/
theorem ext_of_views {m m' : Memory} (hbyte : ∀ a, m'.byteAt a = m.byteAt a)
    (hprotection : ∀ a, m'.protectionAt a = m.protectionAt a) : m' = m := by
  have hpages : m'.pages = m.pages := by
    apply Vector.ext
    intro page hpage
    have hp : m'.pages[page].protection = m.pages[page].protection := by
      rw [← protectionAt_first m' hpage, ← protectionAt_first m hpage]
      exact hprotection _
    have hb : m'.pages[page].bytes = m.pages[page].bytes := by
      apply Vector.ext
      intro r hr
      rw [← byteAt_page m' hpage hr, ← byteAt_page m hpage hr]
      exact hbyte _
    exact Page.ext hp hb
  cases m
  cases m'
  exact congrArg Memory.mk hpages

/-! ## Writing within the permissions -/

theorem write_eq_ok_iff {m m' : Memory} {addr : UInt32} {bytes : List UInt8} {p : Protection} :
    m.write addr bytes p = .ok m' ↔
      m.allows addr bytes.length p = true ∧ m' = m.setBytes addr.toNat bytes := by
  unfold write
  split
  · rename_i h
    simp only [Except.ok.injEq, h, true_and, eq_comm]
  · rename_i h
    simp only [reduceCtorEq, h, false_and]

/-- A load asks for no more than that the pages are there. -/
theorem load_eq_ok_iff {m m' : Memory} {addr : UInt32} {image : List UInt8} :
    m.load addr image = .ok m' ↔
      m.allows addr image.length .presence = true ∧ m' = m.setBytes addr.toNat image := by
  unfold load
  split
  · exact write_eq_ok_iff
  · rename_i hfits
    have hallows : m.allows addr image.length .presence ≠ true := by
      intro h
      exact hfits (decide_eq_true (allows_iff.mp h).1)
    simp only [reduceCtorEq, hallows, false_and]

/-- Bytes outside the written range stay. -/
theorem byteAt_setBytes_outside {m : Memory} {addr a : Nat} {bytes : List UInt8}
    (hfits : addr + bytes.length ≤ 65536) (ha : a < addr ∨ addr + bytes.length ≤ a) :
    (m.setBytes addr bytes).byteAt a = m.byteAt a := by
  rw [byteAt_setBytes m addr a bytes hfits]
  split
  · rename_i hle
    have hnone : bytes[a - addr]? = none := List.getElem?_eq_none (by omega)
    rw [hnone, Option.getD_none]
  · rfl

/-- All that changed are bytes that the guest may write. -/
structure Confines (m m' : Memory) : Prop where
  /-- A byte that may not be written is what it was. -/
  byteAt_eq : ∀ a, ¬ m.Grants .writing a → m'.byteAt a = m.byteAt a
  /-- The page table is what it was. -/
  protectionAt_eq : ∀ a, m'.protectionAt a = m.protectionAt a

theorem Confines.refl (m : Memory) : m.Confines m := ⟨fun _ _ => rfl, fun _ => rfl⟩

theorem Confines.trans {m m' m'' : Memory} (h : m.Confines m') (h' : m'.Confines m'') :
    m.Confines m'' := by
  refine ⟨fun a ha => ?_, fun a => (h'.protectionAt_eq a).trans (h.protectionAt_eq a)⟩
  have ha' : ¬ m'.Grants .writing a := by
    rwa [Grants.congr (h.protectionAt_eq a)]
  exact (h'.byteAt_eq a ha').trans (h.byteAt_eq a ha)

/-- A write with the permissions of the guest is confined, wherever it goes and
however long it is: the checked range is the written one. -/
theorem Confines.of_write {m m' : Memory} {addr : UInt32} {bytes : List UInt8}
    (h : m.write addr bytes .writing = .ok m') : m.Confines m' := by
  obtain ⟨hallows, rfl⟩ := write_eq_ok_iff.mp h
  obtain ⟨hfits, hgrants⟩ := allows_iff.mp hallows
  refine ⟨fun a ha => ?_, fun a => protectionAt_setBytes m _ a bytes⟩
  apply byteAt_setBytes_outside hfits
  rcases Nat.lt_or_ge a addr.toNat with hlo | hlo
  · exact .inl hlo
  · rcases Nat.lt_or_ge a (addr.toNat + bytes.length) with hhi | hhi
    · exact absurd (hgrants a hlo hhi) ha
    · exact .inr hhi

/-! ## Pages for writing and pages for executing -/

/-- No page is both writable and executable. -/
def Separated (m : Memory) : Prop :=
  ∀ page p, m.protection page = .ok p → ¬ (p.write = true ∧ p.execute = true)

theorem separated_initial : initial.Separated := by
  intro page p hp
  unfold protection at hp
  split at hp
  · simp only [Except.ok.injEq, initial, Vector.getElem_ofFn] at hp
    rw [← hp, initialProtection]
    split
    · decide
    split
    · decide
    split <;> decide
  · cases hp

/-- With separated pages, what may be fetched may not be written. -/
theorem Separated.not_writing {m : Memory} (hsep : m.Separated) {a : Nat}
    (ha : m.Grants .fetching a) : ¬ m.Grants .writing a := by
  by_cases hfits : a < 65536
  · have hpage : a / 256 < 256 := by omega
    have hp : m.protectionAt a = m.pages[a / 256].protection := by
      rw [← protectionAt_page m hfits, protectionAt_first m hpage]
    have hsep' := hsep (a / 256) _ (by rw [protection, dif_pos hpage])
    rw [← hp] at hsep'
    intro hw
    refine hsep' ⟨(grants_writing_iff.mp hw).2, ?_⟩
    simp only [Grants, Protection.contains, Protection.union, Protection.fetching,
      Bool.and_eq_true, Bool.or_eq_true, Bool.not_eq_true'] at ha
    simpa using ha.2
  · intro hw
    have hnone : m.protectionAt a = .none := by rw [protectionAt, dif_neg hfits]
    rw [grants_writing_iff, hnone] at hw
    exact absurd hw.1 (by decide)

/-- With separated pages, a word that can be fetched after a confined change is
the word that was there before, byte for byte. -/
theorem Confines.fetched {m m' : Memory} (h : m.Confines m') (hsep : m.Separated)
    {addr word : UInt32} (hword : m'.readWord addr .fetching = .ok word) :
    word = m.wordAt addr.toNat ∧
      ∀ i < 4, m'.byteAt (addr.toNat + i) = m.byteAt (addr.toNat + i) := by
  have hbyte : ∀ a, m.Grants .fetching a → m'.byteAt a = m.byteAt a :=
    fun a ha => h.byteAt_eq a (hsep.not_writing ha)
  rw [readWord_congr h.protectionAt_eq hbyte, readWord_eq_ok_iff] at hword
  obtain ⟨hallows, rfl⟩ := hword
  refine ⟨rfl, fun i hi => ?_⟩
  exact hbyte _ ((allows_iff.mp hallows).2 _ (by omega) (by omega))

/-! ## Memories that the guest cannot tell apart -/

/-- One page table, and the same bytes at the visible addresses, among which are
all that the guest may read. -/
structure AgreesOn (visible : Nat → Prop) (m m' : Memory) : Prop where
  /-- The page tables are the same. -/
  protectionAt_eq : ∀ a, m'.protectionAt a = m.protectionAt a
  /-- What may be read is visible. -/
  visible_of_reading : ∀ a, m.Grants .reading a → visible a
  /-- The visible bytes are the same. -/
  byteAt_eq : ∀ a, visible a → m'.byteAt a = m.byteAt a

/-- Memories agree on all addresses exactly when they are the same. -/
theorem agreesOn_all_iff {m m' : Memory} : AgreesOn (fun _ => True) m m' ↔ m' = m := by
  constructor
  · intro h
    exact ext_of_views (fun a => h.byteAt_eq a trivial) h.protectionAt_eq
  · rintro rfl
    exact ⟨fun _ => rfl, fun _ _ => trivial, fun _ _ => rfl⟩

namespace AgreesOn

variable {visible : Nat → Prop} {m m' : Memory}

/-- Agreement covers every byte that is granted together with reading. -/
theorem byteAt_of_grants (h : AgreesOn visible m m') {p : Protection} (hp : p.read = true)
    (a : Nat) (ha : m.Grants p a) : m'.byteAt a = m.byteAt a :=
  h.byteAt_eq a (h.visible_of_reading a (ha.reading_of hp))

theorem read_eq (h : AgreesOn visible m m') {p : Protection} (hp : p.read = true)
    (addr : UInt32) (size : Nat) : m'.read addr size p = m.read addr size p :=
  read_congr h.protectionAt_eq (h.byteAt_of_grants hp) addr size

theorem readWord_eq (h : AgreesOn visible m m') {p : Protection} (hp : p.read = true)
    (addr : UInt32) : m'.readWord addr p = m.readWord addr p :=
  readWord_congr h.protectionAt_eq (h.byteAt_of_grants hp) addr

theorem readByte_eq (h : AgreesOn visible m m') {p : Protection} (hp : p.read = true)
    (addr : UInt32) : m'.readByte addr p = m.readByte addr p :=
  readByte_congr h.protectionAt_eq (h.byteAt_of_grants hp) addr

/-- The same write is refused by both, or leaves them in agreement. -/
theorem write (h : AgreesOn visible m m') (addr : UInt32) (bytes : List UInt8)
    (p : Protection) :
    Matches (AgreesOn visible) (m.write addr bytes p) (m'.write addr bytes p) := by
  unfold Memory.write
  rw [allows_congr h.protectionAt_eq]
  split
  · rename_i hallows
    have hfits := (allows_iff.mp hallows).1
    refine .ok ⟨fun a => ?_, fun a ha => ?_, fun a ha => ?_⟩
    · rw [protectionAt_setBytes, protectionAt_setBytes, h.protectionAt_eq]
    · exact h.visible_of_reading a
        ((Grants.congr (protectionAt_setBytes m _ a bytes) .reading).mp ha)
    · rw [byteAt_setBytes _ _ _ _ hfits, byteAt_setBytes _ _ _ _ hfits, h.byteAt_eq a ha]
  · exact .error _

theorem writeWord (h : AgreesOn visible m m') (addr value : UInt32) (p : Protection) :
    Matches (AgreesOn visible) (m.writeWord addr value p) (m'.writeWord addr value p) :=
  h.write addr _ p

theorem writeByte (h : AgreesOn visible m m') (addr : UInt32) (value : UInt8)
    (p : Protection) :
    Matches (AgreesOn visible) (m.writeByte addr value p) (m'.writeByte addr value p) :=
  h.write addr _ p

end AgreesOn

end Memory

end SandboxCpu
