import SandboxCpu.Proofs.Text.Numeral

/-!
# Written numbers tell their value

Numbers are written with hexadecimal digits behind zeros, or with decimal digits and
perhaps a minus sign.  Digits write one number only, whatever zeros stand in front of
them (`Writes.unique`).  So different numbers never look the same.

A text may be put together from several parts.  It can be cut into them again when
each part is followed by a separator, or by nothing, and has no separator in it
(`cut_inj`).

## Main results

* `hex0x_inj`, `toString_int_inj`: the two ways to write a number tell it.
* `cut_inj`: a text with a separator can be cut in one way only.
-/

namespace SandboxCpu.Text

/-! ## Numbers as texts -/

theorem toDigits_inj {radix m n : Nat} (hlo : 1 < radix) (hhi : radix ≤ 16) :
    Nat.toDigits radix m = Nat.toDigits radix n ↔ m = n := by
  constructor
  · intro h
    have hm : Writes radix (Nat.toDigits radix m) m := writes_toDigits hlo hhi 0 m
    rw [h] at hm
    exact hm.unique (by omega) hhi (writes_toDigits hlo hhi 0 n)
  · exact fun h => h ▸ rfl

/-- Hexadecimal digits write their number, whatever their width. -/
theorem writes_hexDigits (width n : Nat) : Writes 16 (hexDigits width n) n :=
  writes_toDigits (by decide) (by decide) _ n

theorem hex0x_inj {width m n : Nat} : hex0x width m = hex0x width n ↔ m = n := by
  constructor
  · intro h
    have hdigits := congrArg String.toList h
    rw [hex0x, hex0x, String.toList_append, String.toList_append, List.append_cancel_left_eq,
      hex, hex, String.toList_ofList, String.toList_ofList] at hdigits
    have hm := writes_hexDigits width m
    rw [hdigits] at hm
    exact hm.unique (by decide) (by decide) (writes_hexDigits width n)
  · exact fun h => h ▸ rfl

/-- A minus sign is no digit. -/
theorem not_mem_toDigits_minus (n : Nat) : '-' ∉ Nat.toDigits 10 n := by
  intro hmem
  have hdigit := Nat.isDigit_of_mem_toDigits (by decide) (by decide) hmem
  exact absurd hdigit (by decide)

/-- An integer is told by its decimal digits and its sign. -/
theorem toList_toString_int (z : Int) :
    (toString z).toList =
      if 0 ≤ z then Nat.toDigits 10 z.toNat else '-' :: Nat.toDigits 10 (-z).toNat := by
  show (Int.repr z).toList = _
  rw [Int.repr_eq_if]
  split
  · exact Nat.toList_repr
  · rw [String.toList_append, Nat.toList_repr]
    rfl

theorem toString_int_inj {y z : Int} : toString y = toString z ↔ y = z := by
  constructor
  · intro h
    have hlist := congrArg String.toList h
    rw [toList_toString_int, toList_toString_int] at hlist
    by_cases hy : 0 ≤ y
    · by_cases hz : 0 ≤ z
      · rw [if_pos hy, if_pos hz, toDigits_inj (by decide) (by decide)] at hlist
        omega
      · rw [if_pos hy, if_neg hz] at hlist
        exact absurd (hlist ▸ List.mem_cons_self) (not_mem_toDigits_minus y.toNat)
    · by_cases hz : 0 ≤ z
      · rw [if_neg hy, if_pos hz] at hlist
        exact absurd (hlist.symm ▸ List.mem_cons_self) (not_mem_toDigits_minus z.toNat)
      · rw [if_neg hy, if_neg hz, List.cons.injEq, toDigits_inj (by decide) (by decide)] at hlist
        omega
  · exact fun h => h ▸ rfl

/-! ## Texts of several parts -/

/-- Two texts that are equal are cut at the same place by a separator that stands
behind the first part of each, if anything does. -/
theorem cut_inj {sep : Char} {xs ys t u : List Char} (hxs : sep ∉ xs) (hys : sep ∉ ys)
    (ht : ∀ c ∈ t.head?, c = sep) (hu : ∀ c ∈ u.head?, c = sep) (h : xs ++ t = ys ++ u) :
    xs = ys ∧ t = u := by
  induction xs generalizing ys with
  | nil =>
      cases ys with
      | nil => exact ⟨rfl, h⟩
      | cons y ys =>
          have hy : y = sep := ht y (by rw [← List.nil_append t, h]; rfl)
          exact absurd (hy ▸ List.mem_cons_self) hys
  | cons x xs ih =>
      cases ys with
      | nil =>
          have hx : x = sep := hu x (by rw [← List.nil_append u, ← h]; rfl)
          exact absurd (hx ▸ List.mem_cons_self) hxs
      | cons y ys =>
          obtain ⟨rfl, hrest⟩ := List.cons.inj h
          obtain ⟨rfl, htails⟩ := ih (fun hmem => hxs (List.mem_cons_of_mem _ hmem))
            (fun hmem => hys (List.mem_cons_of_mem _ hmem)) hrest
          exact ⟨rfl, htails⟩

end SandboxCpu.Text
