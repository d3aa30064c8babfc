import SandboxCpu.Proofs.Machine.HostCall

/-!
# The buffer of a read

A guest that reads a line names a range of memory for it, and the configuration
limits how much of a line is read at once.  The smaller of the two is the buffer
that the line is meant for.

Three lengths meet here.  The permissions of the whole range are checked, the
console is told the size of the buffer, and what is stored is the line that the
console gives, at the length that it has.  Nothing compares the line with the
buffer.  So it is the console that keeps reads within their buffers: the consoles
of this library do (`keepsLimit_queue`, `keepsLimit_stream`), and one that gives a
longer line gets all of it stored wherever the guest may write
(`read_stays_in_buffer_iff`).
-/

namespace SandboxCpu

open Word Isa

namespace Machine

variable {κ : Type} [Console κ] {m : Machine κ}

/-! ## The buffer -/

/-- A step that reads a line changes no byte outside the buffer, and says that it
has read no more than the buffer holds. -/
def StaysInBuffer (m : Machine κ) : Prop :=
  (∀ a, a < m.systemCall.arg0.toNat ∨ m.systemCall.arg0.toNat + m.readBound ≤ a →
    m.step.2.memory.byteAt a = m.memory.byteAt a) ∧
  (m.step.2.cpu.reg (register 0) ≠ SystemCall.failure →
    (m.step.2.cpu.reg (register 0)).toNat ≤ m.readBound)

/-- The host gets a line for the guest, and the guest may write where all of the line
goes. -/
structure Receives (m : Machine κ) (line : List UInt8) : Prop where
  console : ∃ c, Console.readLine m.console m.readBound = (.ok line, c)
  range : m.memory.Granted .writing m.systemCall.arg0 m.systemCall.arg1.toNat
  granted : m.memory.Granted .writing m.systemCall.arg0 line.length

/-- A line that is received takes up its own length, and the guest is told that
length. -/
theorem Calling.received (h : m.Calling) (hnumber : m.systemCall.number = 3)
    {bytes : List UInt8} (hline : m.Receives bytes) :
    (m.step.2.cpu.reg (register 0)).toNat = bytes.length ∧
      ∀ a, a < m.systemCall.arg0.toNat ∨ m.systemCall.arg0.toNat + bytes.length ≤ a →
        m.step.2.memory.byteAt a = m.memory.byteAt a := by
  obtain ⟨c, hconsole⟩ := hline.console
  have heffect : m.callEffect = Effect.leaving
      { answer (UInt32.ofNat bytes.length) with store := some (m.systemCall.arg0, bytes) } c := by
    rw [readBound] at hconsole
    rw [callEffect_read m hnumber, receiveLine, if_pos hline.range, hconsole]
    exact if_pos hline.granted
  have hdone := h.done.2
  rw [heffect] at hdone
  constructor
  · have hreg : m.step.2.cpu.reg (register 0) = UInt32.ofNat bytes.length := hdone.reg _
    have hfits := hline.granted.1
    rw [hreg, UInt32.toNat_ofNat']
    omega
  · intro a ha
    have hbyte : m.step.2.memory.byteAt a = if m.systemCall.arg0.toNat ≤ a
        then (bytes[a - m.systemCall.arg0.toNat]?).getD (m.memory.byteAt a)
        else m.memory.byteAt a := hdone.byteAt a
    rw [hbyte]
    split
    · have hnone : bytes[a - m.systemCall.arg0.toNat]? = none :=
        List.getElem?_eq_none (by omega)
      rw [hnone, Option.getD_none]
    · rfl

/-- A read that is not refused has received a line. -/
theorem refused_or_receives (hnumber : m.systemCall.number = 3) :
    m.Refused ∨ ∃ line, m.Receives line := by
  by_cases hrange : m.memory.Granted .writing m.systemCall.arg0 m.systemCall.arg1.toNat
  · rcases hconsole : Console.readLine m.console m.readBound with ⟨_ | line, c⟩
    · exact .inl (.unread hnumber hrange hconsole)
    · by_cases hline : m.memory.Granted .writing m.systemCall.arg0 line.length
      · exact .inr ⟨line, ⟨c, hconsole⟩, hrange, hline⟩
      · exact .inl (.unstored hnumber hrange hconsole hline)
  · exact .inl (.unwritable hnumber hrange)

theorem Refused.staysInBuffer (h : m.Calling) (hrefused : m.Refused) : m.StaysInBuffer := by
  obtain ⟨hanswer, hmemory, -⟩ := h.refused hrefused
  refine ⟨fun a _ => ?_, fun hanswer' => absurd hanswer hanswer'⟩
  rw [hmemory]

/-- A line that is received stays in the buffer if it is no longer than that. -/
theorem Receives.staysInBuffer_iff (h : m.Calling) (hnumber : m.systemCall.number = 3)
    {line : List UInt8} (hline : m.Receives line) :
    m.StaysInBuffer ↔ line.length ≤ m.readBound := by
  obtain ⟨hanswer, hbyte⟩ := h.received hnumber hline
  constructor
  · rintro ⟨-, hbound⟩
    rw [← hanswer]
    apply hbound
    intro hfailure
    have hfits := hline.granted.1
    have hvalue : SystemCall.failure.toNat = 4294967295 := rfl
    rw [hfailure, hvalue] at hanswer
    omega
  · intro hle
    refine ⟨fun a ha => hbyte a ?_, fun _ => hanswer ▸ hle⟩
    omega

omit [Console κ] in
theorem line_eq_of_receives {m : Machine LineConsole} {line : List UInt8}
    (h : m.Receives line) : line = m.console.line := by
  obtain ⟨c, hconsole⟩ := h.console
  cases hconsole
  rfl

/-! ## Main result -/

/-- **A read stays in its buffer exactly when no line that the host receives is too
long.**  It is the console that decides: with one that keeps to the limit every
read stays in its buffer. -/
theorem read_stays_in_buffer_iff (h : m.Calling) (hnumber : m.systemCall.number = 3) :
    (m.StaysInBuffer ↔ ∀ line, m.Receives line → line.length ≤ m.readBound) ∧
      (Console.KeepsLimit κ → m.StaysInBuffer) := by
  have hiff : m.StaysInBuffer ↔ ∀ line, m.Receives line → line.length ≤ m.readBound := by
    constructor
    · intro hstays line hline
      exact (hline.staysInBuffer_iff h hnumber).mp hstays
    · intro hshort
      obtain hrefused | ⟨line, hline⟩ := m.refused_or_receives hnumber
      · exact hrefused.staysInBuffer h
      · exact (hline.staysInBuffer_iff h hnumber).mpr (hshort line hline)
  refine ⟨hiff, fun hkeeps => hiff.mpr fun line hline => ?_⟩
  obtain ⟨c, hconsole⟩ := hline.console
  exact hkeeps m.console m.readBound hconsole

/-- At the very end of memory the line has no room.  It is given up as a whole, and
the read stays in its buffer. -/
theorem read_stays_in_buffer_cramped :
    (overfed 0xFFFE).Calling ∧ (overfed 0xFFFE).systemCall.number = 3 ∧
      (overfed 0xFFFE).StaysInBuffer := by
  have hword : (overfed 0xFFFE).memory.wordAt (overfed 0xFFFE).cpu.pc.toNat = 0xF0000000 := by
    decide +kernel
  have hcalling : (overfed 0xFFFE).Calling :=
    .of_wordAt (by decide +kernel) (by decide +kernel) (by decide +kernel) (hword ▸ rfl)
  have hnumber : (overfed 0xFFFE).systemCall.number = 3 := by decide +kernel
  have hroom : ¬ (overfed 0xFFFE).memory.Granted .writing (overfed 0xFFFE).systemCall.arg0
      (overfed 0xFFFE).console.line.length := by decide +kernel
  refine ⟨hcalling, hnumber, (read_stays_in_buffer_iff hcalling hnumber).1.mpr ?_⟩
  intro line hline
  have hgranted := hline.granted
  rw [line_eq_of_receives hline] at hgranted
  exact absurd hgranted hroom

/-- In the middle of memory all six bytes are stored, four of them behind the
buffer, and the guest is told so. -/
theorem read_leaves_buffer :
    (overfed 0x4000).Calling ∧ (overfed 0x4000).systemCall.number = 3 ∧
      (overfed 0x4000).readBound = 2 ∧
      (overfed 0x4000).memory.byteAt 0x4002 = 0 ∧
      (overfed 0x4000).step.2.memory.byteAt 0x4002 = 50 ∧
      (overfed 0x4000).step.2.cpu.reg (register 0) = 6 ∧
      ¬ (overfed 0x4000).StaysInBuffer := by
  have hword : (overfed 0x4000).memory.wordAt (overfed 0x4000).cpu.pc.toNat = 0xF0000000 := by
    decide +kernel
  have hcalling : (overfed 0x4000).Calling :=
    .of_wordAt (by decide +kernel) (by decide +kernel) (by decide +kernel) (hword ▸ rfl)
  have hbound : (overfed 0x4000).readBound = 2 := by decide +kernel
  have hbefore : (overfed 0x4000).memory.byteAt 0x4002 = 0 := by decide +kernel
  have hafter : (overfed 0x4000).step.2.memory.byteAt 0x4002 = 50 := by decide +kernel
  refine ⟨hcalling, by decide +kernel, hbound, hbefore, hafter, by decide +kernel, ?_⟩
  rintro ⟨hbyte, -⟩
  have haddr : (overfed 0x4000).systemCall.arg0.toNat = 0x4000 := by decide +kernel
  have hsame := hbyte 0x4002 (.inr (by omega))
  rw [hbefore, hafter] at hsame
  exact absurd hsame (by decide)

end Machine

end SandboxCpu
