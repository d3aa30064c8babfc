/-!
# Page protection

What may be done with a page. A set of permissions is at the same time a demand: an access asks for
some of them, and a page grants the access when it holds all that are asked for.
-/

namespace SandboxCpu

/-- The permissions of a page, or those that an access asks for. -/
structure Protection where
  /-- The page exists. -/
  present : Bool := false
  /-- Its bytes may be read. -/
  read : Bool := false
  /-- Its bytes may be written. -/
  write : Bool := false
  /-- Its bytes may be fetched as instructions. -/
  execute : Bool := false
  deriving DecidableEq, Repr

namespace Protection

/-- No permission. -/
def none : Protection := {}

/-- The page exists, and nothing else. -/
def presence : Protection := { present := true }

/-- Permission to read. -/
def reading : Protection := { read := true }

/-- Permission to write. -/
def writing : Protection := { write := true }

/-- Permission to fetch instructions, which includes reading them. -/
def fetching : Protection := { read := true, execute := true }

/-- The permissions in the low four bits of a number, presence being the lowest. Higher bits do not
count. -/
def ofBits (bits : Nat) : Protection where
  present := bits.testBit 0
  read := bits.testBit 1
  write := bits.testBit 2
  execute := bits.testBit 3

/-- The permissions as a number below sixteen. -/
def bits (p : Protection) : Nat :=
  p.present.toNat + 2 * p.read.toNat + 4 * p.write.toNat + 8 * p.execute.toNat

/-- The permissions of either. -/
def union (p q : Protection) : Protection where
  present := p.present || q.present
  read := p.read || q.read
  write := p.write || q.write
  execute := p.execute || q.execute

/-- Whether all permissions of `demand` are granted. -/
def contains (p demand : Protection) : Bool :=
  (!demand.present || p.present) && (!demand.read || p.read) &&
    (!demand.write || p.write) && (!demand.execute || p.execute)

/-- One letter for each permission that is given and a dash for each that is not. -/
def text (p : Protection) : String :=
  String.ofList [if p.present then 'p' else '-', if p.read then 'r' else '-',
    if p.write then 'w' else '-', if p.execute then 'x' else '-']

theorem ofBits_bits (p : Protection) : ofBits p.bits = p := by
  rcases p with ⟨a, b, c, d⟩
  cases a <;> cases b <;> cases c <;> cases d <;> rfl

theorem contains_union {p q r : Protection} :
    p.contains (q.union r) = (p.contains q && p.contains r) := by
  rw [Bool.eq_iff_iff]
  simp only [contains, union, Bool.and_eq_true, Bool.or_eq_true, Bool.not_eq_true', Bool.or_eq_false_iff]
  grind

end Protection

end SandboxCpu
