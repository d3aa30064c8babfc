import SandboxCpu.Machine.Dump
import SandboxCpu.Machine.Operation
import SandboxCpu.Proofs.Image.Token
import SandboxCpu.Proofs.Isa.Disassembly
import SandboxCpu.Proofs.Memory.Access

/-!
# The window around the program counter

A dump ends with nine lines of memory, and the one at the program counter carries a mark.
The mark is looked for in the text of a line, as a reader does, so it has to be known that
nothing else in a line can look like it: addresses, words and instructions are written
without capital letters (`quiet_line`), and the mark is not.

The lines are four bytes apart.  Where there is room the first is sixteen bytes before the
program counter, and the fifth is the one at the program counter, which need not be a
multiple of four; at the top of the address range the addresses behind it wrap around and do
not come back to it.  Below sixteen there is no room, and the window starts at the bottom of
memory.  There the program counter is on a line only if it is a multiple of four, and the
dump marks nothing if it is not.

## Main results

* `windowStart_add_eq_iff`: which line is the one at the program counter.
* `marked_windowLine_iff`: the mark stands on this line and no other.
* `window_marks_pc`: where exactly one line is marked, and what it shows.
-/

namespace SandboxCpu

/-! ## Texts without capital letters -/

namespace Text

/-- No capital letter and no line break stands in a text. -/
def Quiet (cs : List Char) : Prop := ∀ c ∈ cs, c.isUpper = false ∧ c ≠ '\n'

-- The list is gone through, and not all characters, of which there are too many.
instance (cs : List Char) : Decidable (Quiet cs) :=
  List.decidableBAll (fun c : Char => c.isUpper = false ∧ c ≠ '\n') cs

theorem quiet_append {xs ys : List Char} : Quiet (xs ++ ys) ↔ Quiet xs ∧ Quiet ys :=
  List.forall_mem_append

theorem quiet_cons {c : Char} {cs : List Char} : Quiet (c :: cs) ↔ Quiet [c] ∧ Quiet cs :=
  @quiet_append [c] cs

theorem Quiet.of_digits {cs : List Char} (h : ∀ c ∈ cs, ∃ v < 16, c = v.digitChar) :
    Quiet cs := by
  have hall : ∀ v < 16, v.digitChar.isUpper = false ∧ v.digitChar ≠ '\n' := by decide
  intro c hc
  obtain ⟨v, hv, rfl⟩ := h c hc
  exact hall v hv

theorem toList_hex (width n : Nat) : (hex width n).toList = hexDigits width n :=
  String.toList_ofList

theorem quiet_hex (width n : Nat) : Quiet (hex width n).toList := by
  rw [toList_hex]
  exact .of_digits fun c hc => exists_digit_of_mem_hexDigits hc

theorem quiet_hex0x (width n : Nat) : Quiet (hex0x width n).toList := by
  rw [hex0x, String.toList_append]
  exact quiet_append.mpr ⟨by decide, quiet_hex width n⟩

theorem quiet_toString_int (z : Int) : Quiet (toString z).toList := by
  have hdigits (n : Nat) : Quiet (Nat.toDigits 10 n) := by
    refine .of_digits fun c hc => ?_
    obtain ⟨v, hv, rfl⟩ := exists_digit_of_mem_toDigits (by decide) hc
    exact ⟨v, by omega, rfl⟩
  rw [toList_toString_int]
  split
  · exact hdigits z.toNat
  · exact quiet_cons.mpr ⟨by decide, hdigits (-z).toNat⟩

theorem colon_not_mem_address (a : UInt32) : ':' ∉ (address a).toList := by
  have hall : ∀ v < 16, ':' ≠ v.digitChar := by decide
  rw [address, hex0x, String.toList_append, toList_hex, List.mem_append]
  rintro (hmark | hdigit)
  · exact absurd hmark (by decide)
  · obtain ⟨v, hv, heq⟩ := exists_digit_of_mem_hexDigits hdigit
    exact hall v hv heq

end Text

namespace Listing

open Text

theorem quiet_mnemonic (op : Opcode) : Quiet op.mnemonic.toList := by
  have hall : ∀ op ∈ Opcode.all, Quiet op.mnemonic.toList := by decide
  exact hall op op.mem_all

theorem quiet_reg (r : Reg) : Quiet (reg r).toList := by
  have hall : ∀ r : Reg, Quiet (reg r).toList := by decide
  exact hall r

theorem quiet_moreRegs (rs : List Reg) : Quiet (moreRegs rs) := by
  intro c hc
  obtain ⟨r, -, hc⟩ := List.mem_flatMap.mp hc
  have hreg : Quiet (',' :: ' ' :: (reg r).toList) :=
    quiet_cons.mpr ⟨by decide, quiet_cons.mpr ⟨by decide, quiet_reg r⟩⟩
  exact hreg c hc

theorem quiet_registerOperands (op : RegisterOp) (args : RegisterArgs) :
    Quiet (registerOperands op args).toList := by
  have hmore := quiet_moreRegs (op.operands args)
  rw [moreRegs_operands] at hmore
  exact (quiet_cons.mp (quiet_cons.mp hmore).2).2

theorem quiet_immediateOperands (op : ImmediateOp) (args : ImmediateArgs) :
    Quiet (immediateOperands op args).toList := by
  have hnumber : Quiet (numberText op args).toList := by
    cases op with
    | lui => exact quiet_hex0x 4 args.imm.toNat
    | addi | loadi => exact quiet_toString_int args.value.toInt
  rw [toList_immediateOperands]
  exact quiet_append.mpr ⟨quiet_reg args.rd,
    quiet_cons.mpr ⟨by decide, quiet_cons.mpr ⟨by decide, hnumber⟩⟩⟩

theorem quiet_operandText (i : Instruction) : Quiet (operandText i) := by
  cases i with
  | bare op => exact nofun
  | register op args => exact quiet_cons.mpr ⟨by decide, quiet_registerOperands op args⟩
  | immediate op args => exact quiet_cons.mpr ⟨by decide, quiet_immediateOperands op args⟩
  | jump op args => exact quiet_cons.mpr ⟨by decide, quiet_hex0x 6 args.target.toNat⟩

theorem quiet_disassemble (word : UInt32) : Quiet (disassemble word).toList := by
  unfold disassemble
  split
  · rename_i i _
    rw [toList_instruction]
    exact quiet_append.mpr ⟨quiet_mnemonic i.opcode, quiet_operandText i⟩
  · rw [String.toList_append]
    exact quiet_append.mpr ⟨by decide, quiet_hex0x 8 word.toNat⟩

/-- **A listing line has no capital letters.** -/
theorem quiet_line (word address : UInt32) : Quiet (line word address).toList := by
  simp only [line, String.toList_append, quiet_append]
  exact ⟨⟨⟨⟨quiet_hex0x 4 address.toNat, by decide⟩, quiet_hex 8 word.toNat⟩, by decide⟩,
    quiet_disassemble word⟩

end Listing

namespace Machine

open Text

/-! ## Which line is at the program counter -/

/-- The number of the line at the program counter.  With room before it this is the fifth
line, and without the one whose place it is, if there is one. -/
def AtLine (pc : UInt32) (i : Nat) : Prop :=
  (16 ≤ pc.toNat ∧ i = 4) ∨ (pc.toNat < 16 ∧ 4 * i = pc.toNat)

theorem AtLine.lt {pc : UInt32} {i : Nat} (h : AtLine pc i) : i < 9 := by
  unfold AtLine at h
  omega

theorem AtLine.unique {pc : UInt32} {i j : Nat} (hi : AtLine pc i) (hj : AtLine pc j) :
    i = j := by
  unfold AtLine at hi hj
  omega

theorem windowStart_add_eq_iff {pc : UInt32} {i : Nat} (hi : i < 9) :
    windowStart pc + UInt32.ofNat (4 * i) = pc ↔ AtLine pc i := by
  have hpc := pc.toNat_lt
  have hoffset : (UInt32.ofNat (4 * i)).toNat = 4 * i := by
    rw [UInt32.toNat_ofNat', Nat.mod_eq_of_lt (by omega)]
  have hroom : 16 ≤ pc ↔ 16 ≤ pc.toNat := UInt32.le_iff_toNat_le
  rw [← UInt32.toNat_inj, UInt32.toNat_add, hoffset, windowStart, AtLine]
  split
  · rename_i hle
    have hstart : (pc - 16).toNat = pc.toNat - 16 := UInt32.toNat_sub_of_le pc 16 hle
    have hge := hroom.mp hle
    rw [hstart]
    omega
  · rename_i hlt
    have hsmall : ¬ 16 ≤ pc.toNat := mt hroom.mpr hlt
    rw [UInt32.toNat_zero]
    omega

/-- No line is at the program counter if this is below sixteen and no multiple of four. -/
theorem exists_atLine_iff (pc : UInt32) :
    (∃ i, AtLine pc i) ↔ 16 ≤ pc.toNat ∨ 4 ∣ pc.toNat := by
  constructor
  · rintro ⟨i, ⟨hroom, -⟩ | ⟨-, hplace⟩⟩
    · exact .inl hroom
    · exact .inr ⟨i, hplace.symm⟩
  · intro h
    by_cases hroom : 16 ≤ pc.toNat
    · exact ⟨4, .inl ⟨hroom, rfl⟩⟩
    · obtain ⟨i, hplace⟩ := h.resolve_left hroom
      exact ⟨i, .inr ⟨by omega, hplace.symm⟩⟩

/-! ## Lines of the window -/

/-- A line carries the mark of the program counter. -/
def Marked (line : String) : Prop := "<-- PC".toList <:+: line.toList

/-- A line begins with an address. -/
def BeginsAt (line : String) (a : UInt32) : Prop :=
  ∃ rest, line = "  " ++ address a ++ ": " ++ rest

theorem not_marked_of_quiet {line : String} (h : Quiet line.toList) : ¬ Marked line := by
  intro hmark
  have hletter : 'P' ∈ line.toList := hmark.subset (by decide)
  exact absurd (h 'P' hletter).1 (by decide)

/-- A line begins with one address only. -/
theorem BeginsAt.unique {line : String} {a b : UInt32} (ha : BeginsAt line a)
    (hb : BeginsAt line b) : a = b := by
  obtain ⟨rest, rfl⟩ := ha
  obtain ⟨rest', heq⟩ := hb
  have hlist := congrArg String.toList heq
  simp only [String.toList_append, List.append_assoc, List.append_cancel_left_eq] at hlist
  have hcut := cut_inj (colon_not_mem_address a) (colon_not_mem_address b)
    (by rintro c ⟨⟩; rfl) (by rintro c ⟨⟩; rfl) hlist
  exact UInt32.toNat_inj.mp (hex0x_inj.mp (String.toList_inj.mp hcut.1))

section Lines

variable {κ : Type} (m : Machine κ)

/-- A line of the window but for the mark. -/
def wordLine (a : UInt32) : String :=
  match m.memory.readWord a .reading with
  | .ok word => "  " ++ Listing.line word a
  | .error _ => "  " ++ address a ++ ": <no access>"

theorem windowLine_eq (a : UInt32) :
    m.windowLine a = m.wordLine a ++ if a = m.cpu.pc then " <-- PC" else "" := by
  cases hread : m.memory.readWord a .reading with
  | ok word => simp only [windowLine, wordLine, hread, Listing.line, String.append_assoc]
  | error e => simp only [windowLine, wordLine, hread, String.append_assoc]

theorem quiet_wordLine (a : UInt32) : Quiet (m.wordLine a).toList := by
  unfold wordLine
  split
  · rw [String.toList_append]
    exact quiet_append.mpr ⟨by decide, Listing.quiet_line _ a⟩
  · rw [String.toList_append, String.toList_append]
    exact quiet_append.mpr ⟨quiet_append.mpr ⟨by decide, quiet_hex0x 4 a.toNat⟩, by decide⟩

/-- **The mark stands on the line of the program counter, and on no other.** -/
theorem marked_windowLine_iff (a : UInt32) : Marked (m.windowLine a) ↔ a = m.cpu.pc := by
  rw [windowLine_eq]
  split
  · rename_i hpc
    refine iff_of_true ?_ hpc
    rw [Marked, String.toList_append]
    exact ⟨(m.wordLine a).toList ++ [' '], [], by rw [List.append_nil, List.append_assoc]; rfl⟩
  · rename_i hpc
    refine iff_of_false ?_ hpc
    rw [String.append_empty]
    exact not_marked_of_quiet (m.quiet_wordLine a)

theorem newline_not_mem_windowLine (a : UInt32) : '\n' ∉ (m.windowLine a).toList := by
  rw [windowLine_eq, String.toList_append, List.mem_append]
  rintro (hc | hc)
  · exact (m.quiet_wordLine a _ hc).2 rfl
  · split at hc
    all_goals exact absurd hc (by decide)

theorem beginsAt_windowLine (a : UInt32) : BeginsAt (m.windowLine a) a := by
  unfold windowLine
  generalize (if a = m.cpu.pc then " <-- PC" else "") = mark
  cases m.memory.readWord a .reading with
  | ok word =>
      exact ⟨hex 8 word.toNat ++ "    " ++ Listing.disassemble word ++ mark, by
        simp only [String.append_assoc]⟩
  | error e =>
      have hcut : ": <no access>" = ": " ++ "<no access>" := rfl
      exact ⟨"<no access>" ++ mark, by simp only [hcut, String.append_assoc]⟩

variable {m}

/-- A word that can be read is shown as in a listing. -/
theorem wordLine_of_permits {a : UInt32} (h : m.memory.Permits a 4 .reading) :
    m.wordLine a = "  " ++ Listing.line (m.memory.wordAt a.toNat) a := by
  rw [wordLine, Memory.readWord, if_pos (Memory.allows_iff_permits.mpr h)]

theorem wordLine_of_not_permits {a : UInt32} (h : ¬ m.memory.Permits a 4 .reading) :
    m.wordLine a = "  " ++ address a ++ ": <no access>" := by
  rw [wordLine, Memory.readWord, if_neg (mt Memory.allows_iff_permits.mp h)]

theorem getElem?_window_eq_some_iff {i : Nat} {line : String} :
    m.window[i]? = some line ↔
      i < 9 ∧ m.windowLine (windowStart m.cpu.pc + UInt32.ofNat (4 * i)) = line := by
  rw [window, List.getElem?_map, Option.map_eq_some_iff]
  simp only [List.getElem?_eq_some_iff, List.length_range, List.getElem_range]
  constructor
  · rintro ⟨_, ⟨hi, rfl⟩, hline⟩
    exact ⟨hi, hline⟩
  · rintro ⟨hi, hline⟩
    exact ⟨i, ⟨hi, rfl⟩, hline⟩

/-- The line at the program counter is the one that is marked. -/
theorem exists_marked_iff {i : Nat} :
    (∃ line, m.window[i]? = some line ∧ Marked line) ↔ AtLine m.cpu.pc i := by
  simp only [getElem?_window_eq_some_iff]
  constructor
  · rintro ⟨_, ⟨hi, rfl⟩, hmark⟩
    exact (windowStart_add_eq_iff hi).mp ((m.marked_windowLine_iff _).mp hmark)
  · intro h
    have hpc := (windowStart_add_eq_iff h.lt).mpr h
    exact ⟨_, ⟨h.lt, rfl⟩, (m.marked_windowLine_iff _).mpr hpc⟩

theorem exists_mem_marked_iff :
    (∃ line ∈ m.window, Marked line) ↔ ∃ i, AtLine m.cpu.pc i := by
  constructor
  · rintro ⟨line, hline, hmark⟩
    obtain ⟨i, hi⟩ := List.mem_iff_getElem?.mp hline
    exact ⟨i, exists_marked_iff.mp ⟨line, hi, hmark⟩⟩
  · rintro ⟨i, hi⟩
    obtain ⟨line, hline, hmark⟩ := exists_marked_iff.mpr hi
    exact ⟨line, List.mem_of_getElem? hline, hmark⟩

/-! ## Main result -/

variable (m)

/-- **The mark in a dump.**  A dump ends with a window of nine lines.  Exactly one of them
carries the mark if the program counter is at least sixteen or a multiple of four, and none
otherwise; it is the fifth line if there is room for four before it.  A line with the mark
begins with the program counter, and with no other address.  It shows the word that is there
and its text, if the four bytes can be read, and else that they cannot. -/
theorem window_marks_pc :
    (∃ front, m.dump =
      front ++ "Memory around PC:\n" ++ String.join (m.window.map (· ++ "\n"))) ∧
    m.window.length = 9 ∧ (∀ line ∈ m.window, '\n' ∉ line.toList) ∧
    ((∃! i : Nat, ∃ line, m.window[i]? = some line ∧ Marked line) ↔
      16 ≤ m.cpu.pc.toNat ∨ 4 ∣ m.cpu.pc.toNat) ∧
    ((∃ line ∈ m.window, Marked line) ↔ 16 ≤ m.cpu.pc.toNat ∨ 4 ∣ m.cpu.pc.toNat) ∧
    (∀ i line, m.window[i]? = some line → Marked line → 16 ≤ m.cpu.pc.toNat → i = 4) ∧
    ∀ line ∈ m.window, Marked line →
      (∀ a, BeginsAt line a ↔ a = m.cpu.pc) ∧
      (m.memory.Permits m.cpu.pc 4 .reading →
        line = "  " ++ address m.cpu.pc ++ ": " ++
          hex 8 (m.memory.wordAt m.cpu.pc.toNat).toNat ++ "    " ++
          Listing.disassemble (m.memory.wordAt m.cpu.pc.toNat) ++ " <-- PC") ∧
      (¬ m.memory.Permits m.cpu.pc 4 .reading →
        line = "  " ++ address m.cpu.pc ++ ": <no access>" ++ " <-- PC") := by
  refine ⟨⟨_, rfl⟩, ?length, fun line hline => ?newline, ?unique,
    exists_mem_marked_iff.trans (exists_atLine_iff m.cpu.pc), fun i line hi hmark hroom => ?fifth,
    fun line hline hmark => ?shown⟩
  case length => rw [window, List.length_map, List.length_range]
  case newline =>
    obtain ⟨i, -, rfl⟩ := List.mem_map.mp hline
    exact m.newline_not_mem_windowLine _
  case unique =>
    simp only [exists_marked_iff]
    rw [← exists_atLine_iff]
    exact ⟨ExistsUnique.exists, fun ⟨i, hi⟩ => ⟨i, hi, fun j hj => hj.unique hi⟩⟩
  case fifth => exact (exists_marked_iff.mp ⟨line, hi, hmark⟩).unique (.inl ⟨hroom, rfl⟩)
  case shown =>
    obtain ⟨i, -, rfl⟩ := List.mem_map.mp hline
    have hpc := (m.marked_windowLine_iff _).mp hmark
    have hbegins := m.beginsAt_windowLine m.cpu.pc
    rw [hpc]
    refine ⟨fun a => ⟨fun h => h.unique hbegins, fun h => h ▸ hbegins⟩, fun h => ?_, fun h => ?_⟩
    · rw [windowLine_eq, if_pos rfl, wordLine_of_permits h, Listing.line]
      simp only [String.append_assoc]
    · rw [windowLine_eq, if_pos rfl, wordLine_of_not_permits h]

end Lines

/-- With a program counter of two, the first line is about the word at zero and the second
about the word at four, and none is marked. -/
theorem window_unmarked_at_two :
    ¬ ∃ line ∈ ((Machine.new {} {} : Machine QueueConsole).after [.setPc 2]).window,
      Marked line := by
  rw [exists_mem_marked_iff, exists_atLine_iff]
  change ¬ (16 ≤ (2 : UInt32).toNat ∨ 4 ∣ (2 : UInt32).toNat)
  decide

end Machine

end SandboxCpu
