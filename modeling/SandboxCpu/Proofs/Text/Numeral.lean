import Mathlib.Data.List.Forall2
import Mathlib.Data.Nat.Digits.Defs
import SandboxCpu.Text.Numeral

/-!
# What a numeral is

A numeral is a plus sign, which may be missing, and one or more digits.  Its value is the
number that has these digits in its radix, the first one counting most (`Writes`).  This
says nothing of how digits are read, nor of a greatest value.

The reader takes the digits from left to right and stops as soon as their value is too
large.  It may stop so early because the value only grows with each further digit; zeros in
front leave it at zero, so that their number does not matter.  The lemma that carries this
(`numeralDigits_eq_ok_iff`) speaks of a reader that has taken some digits already.

## Main results

* `numeral_eq_ok_iff`: what is read are the numerals whose value is not too large.
* `writes_of_toDigits`: the usual way to write a number, in either case and behind zeros, is
  one way to write it.
-/

namespace SandboxCpu.Text

/-- A character is a digit of a radix: in lower case it is the one for the value. -/
def IsDigit (radix : Nat) (c : Char) (v : Nat) : Prop := v < radix ∧ c.toLower = v.digitChar

/-- Digits write the number that has them in the radix, the first one counting most. -/
def Writes (radix : Nat) (ds : List Char) (n : Nat) : Prop :=
  ∃ vs, List.Forall₂ (IsDigit radix) ds vs ∧ n = Nat.ofDigits radix vs.reverse

/-- A numeral of a radix and its value: perhaps a plus sign, and one or more digits. -/
def IsNumeral (radix : Nat) (text : List Char) (n : Nat) : Prop :=
  ∃ sign ds, text = sign ++ ds ∧ (sign = [] ∨ sign = ['+']) ∧ ds ≠ [] ∧ Writes radix ds n

/-! ## Digits -/

theorem toLower_of_not_ascii {c : Char} (h : 128 ≤ c.toNat) : c.toLower = c := by
  have hbig : ¬ c.val ≤ 'Z'.val := by
    rw [UInt32.le_iff_toNat_le]
    change ¬ c.toNat ≤ 90
    omega
  exact dif_neg fun hboth => hbig hboth.2

theorem hexValue?_of_not_ascii {c : Char} (h : 128 ≤ c.toNat) : hexValue? c = none := by
  have hbig (d : Char) (hd : d.toNat < 128) : ¬ c ≤ d := by
    rw [Char.le_def, UInt32.le_iff_toNat_le]
    change ¬ c.toNat ≤ d.toNat
    omega
  simp only [hexValue?, hbig '9' (by decide), hbig 'f' (by decide), hbig 'F' (by decide), and_false,
    ↓reduceIte]

theorem digitChar_lt {v : Nat} (hv : v < 16) : v.digitChar.toNat < 128 := by
  have hall : ∀ v < 16, v.digitChar.toNat < 128 := by decide
  exact hall v hv

/-- The value of a digit is told by its character in lower case. -/
theorem hexValue?_eq_some_iff {c : Char} {v : Nat} :
    hexValue? c = some v ↔ v < 16 ∧ c.toLower = v.digitChar := by
  have hascii : ∀ n < 128, ∀ v < 16,
      hexValue? (Char.ofNat n) = some v ↔ (Char.ofNat n).toLower = v.digitChar := by decide
  by_cases hc : c.toNat < 128
  · have hvalue := hascii c.toNat hc v
    rw [Char.ofNat_toNat] at hvalue
    exact ⟨fun h => ⟨hexValue?_lt h, (hvalue (hexValue?_lt h)).mp h⟩, fun h => (hvalue h.1).mpr h.2⟩
  · rw [hexValue?_of_not_ascii (by omega), toLower_of_not_ascii (by omega)]
    refine ⟨nofun, fun ⟨hv, heq⟩ => absurd (digitChar_lt hv) ?_⟩
    rwa [← heq]

theorem digitValue?_eq_some_iff {radix : Nat} (hradix : radix ≤ 16) {c : Char} {v : Nat} :
    digitValue? radix c = some v ↔ IsDigit radix c v := by
  rw [digitValue?, Option.filter_eq_some_iff, hexValue?_eq_some_iff, decide_eq_true_iff, IsDigit]
  constructor
  · intro h
    exact ⟨h.2, h.1.2⟩
  · intro h
    exact ⟨⟨by omega, h.2⟩, h.1⟩

theorem not_isDigit_of_digitValue? {radix : Nat} (hradix : radix ≤ 16) {c : Char}
    (h : digitValue? radix c = none) (v : Nat) : ¬ IsDigit radix c v := by
  rw [← digitValue?_eq_some_iff hradix, h]
  exact nofun

/-- One more digit in front moves the value up by as many places as are behind it. -/
theorem value_cons {radix : Nat} {ds : List Char} {vs : List Nat}
    (hvs : List.Forall₂ (IsDigit radix) ds vs) (start d : Nat) :
    start * radix ^ (ds.length + 1) + Nat.ofDigits radix (d :: vs).reverse =
      (start * radix + d) * radix ^ ds.length + Nat.ofDigits radix vs.reverse := by
  rw [Nat.ofDigits_reverse_cons, ← hvs.length_eq]
  ring

/-- Digits are taken in one by one, onto a value that is not too large yet. -/
theorem numeralDigits_eq_ok_iff {radix greatest : Nat} (hpos : 0 < radix) (hradix : radix ≤ 16)
    (ds : List Char) : ∀ {start n : Nat}, start ≤ greatest →
      (numeralDigits radix greatest start ds = .ok n ↔
        ∃ vs, List.Forall₂ (IsDigit radix) ds vs ∧
          n = start * radix ^ ds.length + Nat.ofDigits radix vs.reverse ∧ n ≤ greatest) := by
  induction ds with
  | nil =>
      intro start n hstart
      simp only [numeralDigits, Except.ok.injEq, List.forall₂_nil_left_iff, exists_eq_left,
        List.length_nil, Nat.pow_zero, Nat.mul_one, List.reverse_nil, Nat.ofDigits_nil,
        Nat.add_zero]
      omega
  | cons c ds ih =>
      intro start n hstart
      rw [numeralDigits]
      cases hdigit : digitValue? radix c with
      | none =>
          simp only [reduceCtorEq, List.forall₂_cons_left_iff, false_iff]
          rintro ⟨_, ⟨v, _, hv, _⟩, _⟩
          exact not_isDigit_of_digitValue? hradix hdigit v hv
      | some d =>
          have honly (v : Nat) : IsDigit radix c v ↔ v = d := by
            rw [← digitValue?_eq_some_iff hradix, hdigit, Option.some.injEq, eq_comm]
          dsimp only
          simp only [List.forall₂_cons_left_iff, honly, List.length_cons]
          split
          · rename_i htoo
            simp only [reduceCtorEq, false_iff]
            rintro ⟨_, ⟨v, vs, hv, hvs, rfl⟩, hn, hle⟩
            have hgrows : start * radix + d ≤ (start * radix + d) * radix ^ ds.length :=
              Nat.le_mul_of_pos_right _ (Nat.pow_pos hpos)
            rw [hv, value_cons hvs start d] at hn
            omega
          · rename_i hfits
            rw [ih (by omega)]
            constructor
            · rintro ⟨vs, hvs, hn, hle⟩
              exact ⟨d :: vs, ⟨d, vs, rfl, hvs, rfl⟩, hn.trans (value_cons hvs start d).symm, hle⟩
            · rintro ⟨_, ⟨v, vs, hv, hvs, rfl⟩, hn, hle⟩
              rw [hv, value_cons hvs start d] at hn
              exact ⟨vs, hvs, hn, hle⟩

/-! ## Numerals -/

section Numeral

variable {radix greatest n : Nat}

theorem numeralDigits_zero_eq_ok_iff (hpos : 0 < radix) (hradix : radix ≤ 16) {ds : List Char} :
    numeralDigits radix greatest 0 ds = .ok n ↔ Writes radix ds n ∧ n ≤ greatest := by
  rw [numeralDigits_eq_ok_iff hpos hradix ds (Nat.zero_le _), Writes]
  simp only [Nat.zero_mul, Nat.zero_add]
  constructor
  · rintro ⟨vs, hvs, hn, hle⟩
    exact ⟨⟨vs, hvs, hn⟩, hle⟩
  · rintro ⟨⟨vs, hvs, hn⟩, hle⟩
    exact ⟨vs, hvs, hn, hle⟩

/-- A sign is no digit. -/
theorem not_writes_plus (hradix : radix ≤ 16) {ds : List Char} : ¬ Writes radix ('+' :: ds) n := by
  rintro ⟨vs, hvs, -⟩
  obtain ⟨v, _, hv, -, -⟩ := List.forall₂_cons_left_iff.mp hvs
  exact not_isDigit_of_digitValue? hradix rfl v hv

theorem not_isNumeral_nil : ¬ IsNumeral radix [] n := by
  rintro ⟨sign, ds, htext, -, hne, -⟩
  exact hne (List.append_eq_nil_iff.mp htext.symm).2

theorem isNumeral_plus_iff (hradix : radix ≤ 16) {cs : List Char} :
    IsNumeral radix ('+' :: cs) n ↔ cs ≠ [] ∧ Writes radix cs n := by
  constructor
  · rintro ⟨sign, ds, htext, rfl | rfl, hne, hwrites⟩
    · rw [List.nil_append] at htext
      exact absurd (htext ▸ hwrites) (not_writes_plus hradix)
    · obtain rfl := (List.cons.inj htext).2
      exact ⟨hne, hwrites⟩
  · intro h
    exact ⟨['+'], cs, rfl, .inr rfl, h.1, h.2⟩

theorem isNumeral_cons_iff {c : Char} {cs : List Char} (hc : c ≠ '+') :
    IsNumeral radix (c :: cs) n ↔ Writes radix (c :: cs) n := by
  constructor
  · rintro ⟨sign, ds, htext, rfl | rfl, -, hwrites⟩
    · rw [List.nil_append] at htext
      exact htext ▸ hwrites
    · exact absurd (List.cons.inj htext).1 hc
  · intro h
    exact ⟨[], c :: cs, rfl, .inl rfl, List.cons_ne_nil c cs, h⟩

/-- **What is read are the numerals whose value is not too large.** -/
theorem numeral_eq_ok_iff (hpos : 0 < radix) (hradix : radix ≤ 16) {text : List Char} :
    numeral radix greatest text = .ok n ↔ IsNumeral radix text n ∧ n ≤ greatest := by
  unfold numeral
  split
  · simp only [reduceCtorEq, not_isNumeral_nil, false_and]
  · simp only [reduceCtorEq, isNumeral_plus_iff hradix, ne_eq, not_true_eq_false, false_and]
  · rename_i cs hne
    have hcs : cs ≠ [] := hne
    rw [numeralDigits_zero_eq_ok_iff hpos hradix, isNumeral_plus_iff hradix, and_iff_right hcs]
  · rename_i hnil _ hsigned
    cases text with
    | nil => exact (hnil rfl).elim
    | cons c cs =>
        have hc : c ≠ '+' := fun h => hsigned cs (h ▸ rfl)
        rw [numeralDigits_zero_eq_ok_iff hpos hradix, isNumeral_cons_iff hc]

/-! ## The usual way to write a number -/

theorem exists_values (hradix : 1 < radix) (n : Nat) :
    ∃ vs : List Nat, (∀ v ∈ vs, v < radix) ∧ Nat.toDigits radix n = vs.map Nat.digitChar ∧
      Nat.ofDigits radix vs.reverse = n := by
  induction n using Nat.strongRecOn with
  | ind n ih =>
      rw [Nat.toDigits_eq_if hradix]
      split
      · rename_i hsmall
        refine ⟨[n], ?_, rfl, Nat.ofDigits_singleton⟩
        simpa using hsmall
      · rename_i hlarge
        obtain ⟨vs, hlt, hdigits, hvalue⟩ := ih (n / radix) (Nat.div_lt_self (by omega) hradix)
        refine ⟨vs ++ [n % radix], ?_, ?_, ?_⟩
        · intro v hv
          rcases List.mem_append.mp hv with hv | hv
          · exact hlt v hv
          · rw [List.mem_singleton.mp hv]
            exact Nat.mod_lt n (by omega)
        · rw [hdigits, List.map_append]
          rfl
        · rw [List.reverse_append, List.reverse_singleton, List.singleton_append,
            Nat.ofDigits_cons, hvalue, Nat.mod_add_div]

theorem exists_digit_of_mem_toDigits {c : Char} (hradix : 1 < radix)
    (hc : c ∈ Nat.toDigits radix n) : ∃ v < radix, c = v.digitChar := by
  obtain ⟨vs, hlt, hdigits, -⟩ := exists_values hradix n
  rw [hdigits] at hc
  obtain ⟨v, hv, hchar⟩ := List.mem_map.mp hc
  exact ⟨v, hlt v hv, hchar.symm⟩

theorem forall₂_isDigit {vs : List Nat} (hlt : ∀ v ∈ vs, v < radix) : ∀ {ds : List Char},
    ds.map Char.toLower = vs.map Nat.digitChar → List.Forall₂ (IsDigit radix) ds vs := by
  induction vs with
  | nil =>
      intro ds h
      rw [List.map_eq_nil_iff.mp h]
      exact .nil
  | cons v vs ih =>
      intro ds h
      cases ds with
      | nil => cases h
      | cons c ds =>
          obtain ⟨hc, hds⟩ := List.cons.inj h
          exact .cons ⟨hlt v List.mem_cons_self, hc⟩
            (ih (fun u hu => hlt u (List.mem_cons_of_mem _ hu)) hds)

/-- **The usual digits of a number write it**, in either case and behind zeros. -/
theorem writes_of_toDigits (hradix : 1 < radix) {ds : List Char} {zeros : Nat}
    (h : ds.map Char.toLower = List.replicate zeros '0' ++ Nat.toDigits radix n) :
    Writes radix ds n := by
  obtain ⟨vs, hlt, hdigits, hvalue⟩ := exists_values hradix n
  refine ⟨List.replicate zeros 0 ++ vs, forall₂_isDigit ?_ ?_, ?_⟩
  · intro v hv
    rcases List.mem_append.mp hv with hv | hv
    · rw [List.eq_of_mem_replicate hv]
      omega
    · exact hlt v hv
  · rw [h, hdigits, List.map_append, List.map_replicate]
    rfl
  · rw [List.reverse_append, List.reverse_replicate, Nat.ofDigits_append_replicate_zero, hvalue]

/-- The usual digits are in lower case. -/
theorem map_toLower_toDigits (hlo : 1 < radix) (hhi : radix ≤ 16) (zeros n : Nat) :
    (List.replicate zeros '0' ++ Nat.toDigits radix n).map Char.toLower =
      List.replicate zeros '0' ++ Nat.toDigits radix n := by
  have hlower : ∀ v < 16, v.digitChar.toLower = v.digitChar := by decide
  have hdigits : ∀ c ∈ Nat.toDigits radix n, c.toLower = c := by
    intro c hc
    obtain ⟨v, hv, rfl⟩ := exists_digit_of_mem_toDigits hlo hc
    exact hlower v (by omega)
  rw [List.map_append, List.map_replicate, List.map_congr_left hdigits, List.map_id']
  rfl

theorem writes_toDigits (hlo : 1 < radix) (hhi : radix ≤ 16) (zeros n : Nat) :
    Writes radix (List.replicate zeros '0' ++ Nat.toDigits radix n) n :=
  writes_of_toDigits hlo (map_toLower_toDigits hlo hhi zeros n)

/-- Such digits are a numeral without a sign. -/
theorem isNumeral_of_toDigits (hradix : 1 < radix) {ds : List Char} {zeros : Nat}
    (h : ds.map Char.toLower = List.replicate zeros '0' ++ Nat.toDigits radix n) :
    IsNumeral radix ds n := by
  refine ⟨[], ds, rfl, .inl rfl, ?_, writes_of_toDigits hradix h⟩
  intro hnil
  rw [hnil] at h
  exact Nat.toDigits_ne_nil (List.append_eq_nil_iff.mp h.symm).2

/-- Digits write one number only. -/
theorem Writes.unique (hpos : 0 < radix) (hradix : radix ≤ 16) {ds : List Char} {m : Nat}
    (hm : Writes radix ds m) (hn : Writes radix ds n) : m = n := by
  have hreadm := (numeralDigits_zero_eq_ok_iff hpos hradix).mpr ⟨hm, Nat.le_max_left m n⟩
  have hreadn := (numeralDigits_zero_eq_ok_iff hpos hradix).mpr ⟨hn, Nat.le_max_right m n⟩
  rw [hreadm] at hreadn
  exact Except.ok.inj hreadn

end Numeral

end SandboxCpu.Text
