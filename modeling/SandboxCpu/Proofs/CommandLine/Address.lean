import SandboxCpu.CommandLine.Arguments
import SandboxCpu.Proofs.Text.Numeral

/-!
# How an address is written

Addresses on the command line are decimal numerals, or hexadecimal ones behind a radix mark.
`IsAddress` says so without a word on how they are read.  A text is never both: behind its
zero a radix mark has a letter that is no decimal digit.  So the reader may look for the
mark first, and it reads the addresses that fit a word and nothing else.

## Main result

* `readAddress_exact`: which texts are read, as what, and that all others are errors.
-/

namespace SandboxCpu

namespace Text

/-- A word is read from the numerals of its value. -/
theorem numeral32_eq_ok_iff {radix : Nat} (hpos : 0 < radix) (hradix : radix ≤ 16)
    {text : List Char} {n : UInt32} :
    numeral32 radix text = .ok n ↔ IsNumeral radix text n.toNat := by
  have hn := n.toNat_lt
  have hle : n.toNat ≤ 0xFFFFFFFF := by omega
  have hnumeral (m : Nat) : numeral radix 0xFFFFFFFF text = .ok m ↔
      IsNumeral radix text m ∧ m ≤ 0xFFFFFFFF := numeral_eq_ok_iff hpos hradix
  rw [numeral32, ← and_iff_left (a := IsNumeral radix text n.toNat) hle, ← hnumeral]
  cases hread : numeral radix 0xFFFFFFFF text with
  | error e => exact ⟨nofun, nofun⟩
  | ok m =>
      have hm : m < 2 ^ 32 := by
        have hfits := ((hnumeral m).mp hread).2
        omega
      show Except.ok (UInt32.ofNat m) = .ok n ↔ Except.ok m = .ok n.toNat
      rw [Except.ok.injEq, Except.ok.injEq, ← UInt32.toNat_inj, UInt32.toNat_ofNat',
        Nat.mod_eq_of_lt hm]

/-- A decimal numeral has digits only. -/
theorem not_isNumeral_marked {x : Char} (hx : digitValue? 10 x = none) {text : List Char}
    {n : Nat} : ¬ IsNumeral 10 ('0' :: x :: text) n := by
  rw [isNumeral_cons_iff (by decide)]
  intro h
  obtain ⟨vs, hvs, -⟩ := h
  obtain ⟨_, _, -, htail, -⟩ := List.forall₂_cons_left_iff.mp hvs
  obtain ⟨v, _, hv, -, -⟩ := List.forall₂_cons_left_iff.mp htail
  exact not_isDigit_of_digitValue? (by decide) hx v hv

end Text

namespace CommandLine

open Text

/-- An address and its value: a decimal numeral, or a hexadecimal one behind a radix mark. -/
inductive IsAddress : List Char → Nat → Prop
  | decimal {text : List Char} {n : Nat} (h : IsNumeral 10 text n) : IsAddress text n
  | hexadecimal {x : Char} {text : List Char} {n : Nat} (hx : x = 'x' ∨ x = 'X')
      (h : IsNumeral 16 text n) : IsAddress ('0' :: x :: text) n

theorem isAddress_marked_iff {x : Char} (hx : x = 'x' ∨ x = 'X') {text : List Char} {n : Nat} :
    IsAddress ('0' :: x :: text) n ↔ IsNumeral 16 text n := by
  have hletter : digitValue? 10 x = none := by
    rcases hx with rfl | rfl <;> rfl
  constructor
  · intro h
    cases h with
    | decimal h => exact absurd h (not_isNumeral_marked hletter)
    | hexadecimal _ h => exact h
  · exact .hexadecimal hx

theorem isAddress_unmarked_iff {text : List Char} {n : Nat}
    (hmark : ∀ x rest, text = '0' :: x :: rest → x ≠ 'x' ∧ x ≠ 'X') :
    IsAddress text n ↔ IsNumeral 10 text n := by
  constructor
  · intro h
    cases h with
    | decimal h => exact h
    | hexadecimal hx h =>
        obtain ⟨hlower, hupper⟩ := hmark _ _ rfl
        exact (hx.elim hlower hupper).elim
  · exact .decimal

/-- **A text is read as the word that it is an address of.** -/
theorem markedNumeral32_eq_ok_iff {text : List Char} {n : UInt32} :
    markedNumeral32 text = .ok n ↔ IsAddress text n.toNat := by
  unfold markedNumeral32
  split
  · rw [numeral32_eq_ok_iff (by decide) (by decide), isAddress_marked_iff (.inl rfl)]
  · rw [numeral32_eq_ok_iff (by decide) (by decide), isAddress_marked_iff (.inr rfl)]
  · rename_i hlower hupper
    rw [numeral32_eq_ok_iff (by decide) (by decide), isAddress_unmarked_iff]
    intro x rest htext
    exact ⟨fun hx => hlower rest (hx ▸ htext), fun hx => hupper rest (hx ▸ htext)⟩

theorem readAddress_eq_ok_iff {text : String} {n : UInt32} :
    readAddress text = .ok n ↔ IsAddress text.toList n.toNat := by
  rw [← markedNumeral32_eq_ok_iff, readAddress]
  cases markedNumeral32 text.toList with
  | error e => exact ⟨nofun, nofun⟩
  | ok m =>
      show Except.ok m = .ok n ↔ Except.ok m = .ok n
      rw [Except.ok.injEq, Except.ok.injEq]

/-- The error of a text names it, and arises when no word has the text for its address. -/
theorem readAddress_eq_error_iff {text : String} :
    (∃ cause, readAddress text = .error (.address text cause)) ↔
      ∀ m, IsAddress text.toList m → 2 ^ 32 ≤ m := by
  cases hread : markedNumeral32 text.toList with
  | error e =>
      have herror : readAddress text = .error (.address text e) := by
        rw [readAddress, hread]
        rfl
      refine iff_of_true ⟨e, herror⟩ fun m hm => ?_
      by_contra hlt
      have hvalue : (UInt32.ofNat m).toNat = m := by
        rw [UInt32.toNat_ofNat', Nat.mod_eq_of_lt (by omega)]
      have hok := markedNumeral32_eq_ok_iff.mpr (hvalue.symm ▸ hm)
      rw [hread] at hok
      cases hok
  | ok n =>
      have hok : readAddress text = .ok n := by
        rw [readAddress, hread]
        rfl
      have hn := n.toNat_lt
      refine iff_of_false (fun ⟨cause, herror⟩ => ?_) fun h => ?_
      · rw [hok] at herror
        cases herror
      · have hlarge := h n.toNat (markedNumeral32_eq_ok_iff.mp hread)
        omega

/-- **Addresses are read exactly.**  A text is read as a word when it is a numeral of its
value: an optional radix mark, an optional plus sign, and one or more digits, of either case
behind the mark and decimal without it.  Any other text is an error that names it, and so is
a numeral whose value is no word.  In particular each word is read from its decimal digits, and
from its hexadecimal ones of either case behind either mark, with any number of zeros in
front. -/
theorem readAddress_exact :
    (∀ text : String,
      (∀ n : UInt32, readAddress text = .ok n ↔ IsAddress text.toList n.toNat) ∧
      ((∃ cause, readAddress text = .error (.address text cause)) ↔
        ∀ m, IsAddress text.toList m → 2 ^ 32 ≤ m)) ∧
    ∀ (n : UInt32) (zeros : Nat),
      readAddress (String.ofList (List.replicate zeros '0' ++ Nat.toDigits 10 n.toNat)) = .ok n ∧
      ∀ ds : List Char,
        ds.map Char.toLower = List.replicate zeros '0' ++ Nat.toDigits 16 n.toNat →
          readAddress (String.ofList ('0' :: 'x' :: ds)) = .ok n ∧
          readAddress (String.ofList ('0' :: 'X' :: ds)) = .ok n := by
  refine ⟨fun text => ⟨fun n => readAddress_eq_ok_iff, readAddress_eq_error_iff⟩,
    fun n zeros => ⟨?_, fun ds hds => ⟨?_, ?_⟩⟩⟩
  · rw [readAddress_eq_ok_iff, String.toList_ofList]
    exact .decimal (isNumeral_of_toDigits (by decide)
      (map_toLower_toDigits (by decide) (by decide) zeros n.toNat))
  · rw [readAddress_eq_ok_iff, String.toList_ofList]
    exact .hexadecimal (.inl rfl) (isNumeral_of_toDigits (by decide) hds)
  · rw [readAddress_eq_ok_iff, String.toList_ofList]
    exact .hexadecimal (.inr rfl) (isNumeral_of_toDigits (by decide) hds)

/-- A text with two zeros and letters of both cases. -/
theorem readAddress_exact_mixed :
    "00bEeF".toList.map Char.toLower =
        List.replicate 2 '0' ++ Nat.toDigits 16 (0xBEEF : UInt32).toNat ∧
      readAddress "0X00bEeF" = .ok 0xBEEF := by
  have hdigits : "00bEeF".toList.map Char.toLower =
      List.replicate 2 '0' ++ Nat.toDigits 16 (0xBEEF : UInt32).toNat := by decide
  exact ⟨hdigits, ((readAddress_exact.2 0xBEEF 2).2 _ hdigits).2⟩

/-! The sign stands behind the radix mark, not in front of it. -/

example : readAddress "0x+2A" = .ok 0x2A := rfl

example : readAddress "+0x2A" = .error (.address "+0x2A" .invalidDigit) := rfl

end CommandLine

end SandboxCpu
