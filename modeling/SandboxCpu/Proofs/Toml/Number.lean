import Mathlib.Data.List.TakeWhile
import SandboxCpu.Proofs.Text.Numeral
import SandboxCpu.Toml.Number

/-!
# What a whole number says

A whole number is its digits, and `Text.Writes` says which number they write, apart from any
reader.  Behind a radix mark there are digits of either case with underscores between them, and the
value is that of the digits without the underscores (`value_marked_iff`).  The usual digits of a
number, with a minus in front if it is negative, say that number (`value_decimal`).

That each underscore stands between two digits is checked from left to right, with a memory of
whether the last character was a digit; `Spaced` says it of all underscores at once.

## Main results

* `value_marked_iff`: whole numbers behind a radix mark.
* `value_decimal`: whole numbers as they are usually written.
-/

namespace SandboxCpu.Toml

variable {radix : Nat} {cs : List Char}

/-! ## Digits -/

theorem foldlM_digit_eq_some_iff (hradix : radix ≤ 16) (ds : List Char) : ∀ {start n : Nat},
    ds.foldlM (fun n c => (Text.digitValue? radix c).map (radix * n + ·)) start = some n ↔
      ∃ vs, List.Forall₂ (Text.IsDigit radix) ds vs ∧
        n = start * radix ^ ds.length + Nat.ofDigits radix vs.reverse := by
  induction ds with
  | nil =>
      intro start n
      simp only [List.foldlM_nil, Option.pure_def, Option.some.injEq, List.forall₂_nil_left_iff,
        exists_eq_left, List.length_nil, Nat.pow_zero, Nat.mul_one, List.reverse_nil,
        Nat.ofDigits_nil, Nat.add_zero]
      exact eq_comm
  | cons c ds ih =>
      intro start n
      rw [List.foldlM_cons]
      cases hdigit : Text.digitValue? radix c with
      | none =>
          refine ⟨nofun, ?_⟩
          rintro ⟨_, hvs, -⟩
          obtain ⟨v, _, hv, -, -⟩ := List.forall₂_cons_left_iff.mp hvs
          exact absurd hv (Text.not_isDigit_of_digitValue? hradix hdigit v)
      | some d =>
          have honly (v : Nat) : Text.IsDigit radix c v ↔ v = d := by
            rw [← Text.digitValue?_eq_some_iff hradix, hdigit, Option.some.injEq, eq_comm]
          show List.foldlM _ (radix * start + d) ds = some n ↔ _
          rw [ih, Nat.mul_comm radix start]
          simp only [List.forall₂_cons_left_iff, honly, List.length_cons]
          constructor
          · rintro ⟨vs, hvs, hn⟩
            exact ⟨d :: vs, ⟨d, vs, rfl, hvs, rfl⟩, hn.trans (Text.value_cons hvs start d).symm⟩
          · rintro ⟨_, ⟨v, vs, hv, hvs, rfl⟩, hn⟩
            rw [hv, Text.value_cons hvs start d] at hn
            exact ⟨vs, hvs, hn⟩

/-- The value of a text of digits is the number that they write. -/
theorem digitsValue?_eq_some_iff (hradix : radix ≤ 16) {n : Nat} :
    digitsValue? radix cs = some n ↔ cs ≠ [] ∧ Text.Writes radix cs n := by
  unfold digitsValue?
  split
  · simp only [reduceCtorEq, ne_eq, not_true_eq_false, false_and]
  · rename_i hne
    rw [foldlM_digit_eq_some_iff hradix, and_iff_right hne]
    simp only [Nat.zero_mul, Nat.zero_add]
    rfl

theorem isDigitOf_of_isDigit (hradix : radix ≤ 16) {c : Char} {v : Nat}
    (h : Text.IsDigit radix c v) : isDigitOf radix c = true := by
  rw [isDigitOf, (Text.digitValue?_eq_some_iff hradix).mpr h]
  rfl

/-- All characters of digits that write a number are digits. -/
theorem isDigitOf_of_writes (hradix : radix ≤ 16) {ds : List Char} {n : Nat}
    (h : Text.Writes radix ds n) : ∀ c ∈ ds, isDigitOf radix c = true := by
  obtain ⟨vs, hvs, -⟩ := h
  intro c hc
  obtain ⟨i, hi, rfl⟩ := List.getElem_of_mem hc
  exact isDigitOf_of_isDigit hradix (hvs.get hi (hvs.length_eq ▸ hi))

theorem not_mem_of_digits (h : ∀ c ∈ cs, isDigitOf radix c = true) {c : Char}
    (hc : isDigitOf radix c = false) : c ∉ cs := by
  intro hmem
  rw [h c hmem] at hc
  cases hc

/-- Digits have no sign in front. -/
theorem splitSign_of_digits (h : ∀ c ∈ cs, isDigitOf radix c = true) :
    splitSign cs = (false, cs) := by
  unfold splitSign
  split
  · exact absurd List.mem_cons_self (not_mem_of_digits h (c := '+') rfl)
  · exact absurd List.mem_cons_self (not_mem_of_digits h (c := '-') rfl)
  · rfl

/-! ## Underscores -/

/-- Each underscore stands between two digits. -/
def Spaced (isDigit : Char → Bool) (cs : List Char) : Prop :=
  ∀ front back, cs = front ++ '_' :: back →
    front.getLast?.any isDigit = true ∧ back.head?.any isDigit = true

/-- The check from left to right, with what it remembers of the characters before. -/
theorem underscoresFit_iff_of {isDigit : Char → Bool} (hmark : isDigit '_' = false) (cs : List Char) :
    ∀ {afterDigit : Bool}, underscoresFit isDigit afterDigit cs = true ↔
      ∀ front back, cs = front ++ '_' :: back →
        (front.getLast?.map isDigit).getD afterDigit = true ∧ back.head?.any isDigit = true := by
  induction cs with
  | nil => exact ⟨fun _ front back h => absurd h (by simp), fun _ => rfl⟩
  | cons c cs ih =>
      intro afterDigit
      -- the last character of a text with `c` in front is `c` or stands behind it
      have hlast (front : List Char) : ((c :: front).getLast?.map isDigit).getD afterDigit =
          (front.getLast?.map isDigit).getD (isDigit c) := by
        rw [List.getLast?_cons]
        cases front.getLast? <;> rfl
      have hbehind : underscoresFit isDigit (isDigit c) cs = true ↔
          ∀ front back, c :: cs = c :: front ++ '_' :: back →
            ((c :: front).getLast?.map isDigit).getD afterDigit = true ∧
              back.head?.any isDigit = true := by
        rw [ih]
        simp only [hlast, List.cons_append, List.cons.injEq, true_and]
      constructor
      · intro h front back heq
        cases front with
        | nil =>
            obtain ⟨rfl, rfl⟩ := List.cons.inj heq
            rw [underscoresFit, Bool.and_eq_true, Bool.and_eq_true] at h
            exact ⟨h.1.1, h.1.2⟩
        | cons d front =>
            obtain ⟨rfl, htail⟩ := List.cons.inj heq
            refine hbehind.mp ?_ front back heq
            by_cases hc : c = '_'
            · subst hc
              rw [underscoresFit, Bool.and_eq_true] at h
              rw [hmark]
              exact h.2
            · rwa [underscoresFit.eq_3 _ _ _ _ (fun h => hc h)] at h
      · intro h
        have htail := hbehind.mpr fun front back heq => h (c :: front) back heq
        by_cases hc : c = '_'
        · subst hc
          obtain ⟨hfront, hback⟩ := h [] cs rfl
          rw [hmark] at htail
          have hafter : afterDigit = true := hfront
          rw [underscoresFit, hafter, hback, htail]
          rfl
        · rwa [underscoresFit.eq_3 _ _ _ _ (fun h => hc h)]

theorem underscoresFit_iff (radix : Nat) (cs : List Char) :
    underscoresFit (isDigitOf radix) false cs = true ↔ Spaced (isDigitOf radix) cs := by
  have hlast (front : List Char) : (front.getLast?.map (isDigitOf radix)).getD false =
      front.getLast?.any (isDigitOf radix) := by
    cases front.getLast? <;> rfl
  rw [underscoresFit_iff_of rfl, Spaced]
  simp only [hlast]

/-! ## Values -/

/-- A number with a minus in front or without. -/
def withSign (negative : Bool) (n : Nat) : Int := if negative then -n else n

theorem withSign_false (n : Nat) : withSign false n = n := rfl

/-- The value of a whole number is that of its digits with its sign, and has to fit into 128
bits with or without a sign. -/
theorem integer?_eq_some_iff {negative : Bool} {ds : List Char} (h : splitSign cs = (negative, ds))
    {i : Int} : (Numeral.whole radix cs).integer? = some i ↔
      ∃ n, digitsValue? radix ds = some n ∧ i = withSign negative n ∧
        -2 ^ 127 ≤ i ∧ i < 2 ^ 128 := by
  have hvalue : (Numeral.whole radix cs).integer? = (digitsValue? radix ds).bind fun n =>
      if -2 ^ 127 ≤ withSign negative n ∧ withSign negative n < 2 ^ 128 then
        some (withSign negative n) else none := by
    rw [Numeral.integer?, h]
    dsimp only
    cases digitsValue? radix ds with
    | none => rfl
    | some n =>
        have hfold : (if negative = true then -(n : Int) else n) = withSign negative n := rfl
        simp only [Option.bind_eq_bind, Option.bind_some, Option.pure_def]
        rw [hfold]
        generalize withSign negative n = v
        by_cases hv : -2 ^ 127 ≤ v ∧ v < 2 ^ 128
        · rw [if_pos hv, if_pos (by omega)]
        · rw [if_neg hv, if_neg (by omega)]
  rw [hvalue, Option.bind_eq_some_iff]
  refine exists_congr fun n => and_congr_right fun _ => ?_
  generalize withSign negative n = v
  constructor
  · intro hfits
    split at hfits
    · rename_i hv
      obtain rfl := Option.some.inj hfits
      exact ⟨rfl, hv⟩
    · cases hfits
  · rintro ⟨rfl, hv⟩
    exact if_pos hv

/-! ## Numbers behind a radix mark -/

/-- The marks in front of numbers that are not decimal. -/
def radixMark : Char → Option Nat
  | 'x' => some 16
  | 'o' => some 8
  | 'b' => some 2
  | _ => none

theorem numeral?_marked {mark : Char} (hmark : radixMark mark = some radix) (cs : List Char) :
    numeral? ('0' :: mark :: cs) = markedNumeral radix cs ∧ radix ≤ 16 := by
  unfold radixMark at hmark
  split at hmark <;> cases hmark <;> exact ⟨rfl, by decide⟩

/-- A text has digits and underscores only if without the underscores it has digits only. -/
theorem all_isDigitOf_iff : (cs.all fun c => isDigitOf radix c || c == '_') = true ↔
    ∀ c ∈ dropUnderscores cs, isDigitOf radix c = true := by
  simp only [dropUnderscores, List.all_eq_true, Bool.or_eq_true, beq_iff_eq, List.mem_filter,
    bne_iff_ne, and_imp]
  exact forall₂_congr fun c _ => or_iff_not_imp_right

/-- **A whole number behind a radix mark.**  Its underscores stand between digits, and its value is
the number below `2 ^ 128` that the digits write. -/
theorem value_marked_iff {mark : Char} (hmark : radixMark mark = some radix) {i : Int} :
    (numeral? ('0' :: mark :: cs)).bind Numeral.integer? = some i ↔
      Spaced (isDigitOf radix) cs ∧ dropUnderscores cs ≠ [] ∧
        ∃ n, Text.Writes radix (dropUnderscores cs) n ∧ n < 2 ^ 128 ∧ i = n := by
  obtain ⟨hform, hradix⟩ := numeral?_marked hmark cs
  have hfits : ((cs.all fun c => isDigitOf radix c || c == '_') &&
      underscoresFit (isDigitOf radix) false cs) = true ↔
        (∀ c ∈ dropUnderscores cs, isDigitOf radix c = true) ∧ Spaced (isDigitOf radix) cs := by
    rw [Bool.and_eq_true, all_isDigitOf_iff, underscoresFit_iff]
  rw [hform, markedNumeral]
  split
  · rename_i hgiven
    obtain ⟨hdigits, hspaced⟩ := hfits.mp hgiven
    rw [Option.bind_some, integer?_eq_some_iff (splitSign_of_digits hdigits),
      and_iff_right hspaced]
    simp only [digitsValue?_eq_some_iff hradix, withSign_false]
    constructor
    · rintro ⟨n, ⟨hne, hwrites⟩, rfl, -, hlt⟩
      exact ⟨hne, n, hwrites, by omega, rfl⟩
    · rintro ⟨hne, n, hwrites, hlt, rfl⟩
      exact ⟨n, ⟨hne, hwrites⟩, rfl, by omega, by omega⟩
  · rename_i hrefused
    refine ⟨nofun, ?_⟩
    rintro ⟨hspaced, -, n, hwrites, -⟩
    exact absurd (hfits.mpr ⟨isDigitOf_of_writes hradix hwrites, hspaced⟩) hrefused

example : (numeral? ['0', 'x', 'f', '_', 'F']).bind Numeral.integer? = some 255 := by decide

/-! ## Numbers as they are usually written -/

/-- The digits of a number, with a minus in front if it is negative. -/
def decimal (i : Int) : List Char :=
  (if i < 0 then ['-'] else []) ++ Nat.toDigits 10 i.natAbs

theorem isDigit_of_mem_toDigits {n : Nat} {c : Char} (hc : c ∈ Nat.toDigits 10 n) :
    c.isDigit = true := by
  have hall : ∀ v < 10, v.digitChar.isDigit = true := by decide
  obtain ⟨v, hv, rfl⟩ := Text.exists_digit_of_mem_toDigits (by decide) hc
  exact hall v hv

/-- The first digit of a number is a zero only if the number is zero. -/
theorem eq_zero_of_head_toDigits {n : Nat} (h : (Nat.toDigits 10 n).head? = some '0') : n = 0 := by
  induction n using Nat.strongRecOn with
  | ind n ih =>
      rw [Nat.toDigits_eq_if (by decide)] at h
      split at h
      · rename_i hsmall
        have hall : ∀ v < 10, v.digitChar = '0' → v = 0 := by decide
        exact hall n hsmall (Option.some.inj h)
      · rename_i hlarge
        rw [List.head?_append_of_ne_nil _ Nat.toDigits_ne_nil] at h
        have hquotient := ih (n / 10) (by omega) h
        omega

section Form

variable {sign : List Char}

theorem isDigitOf_of_mem_toDigits {n : Nat} : ∀ c ∈ Nat.toDigits 10 n, isDigitOf 10 c = true :=
  isDigitOf_of_writes (by decide) (Text.writes_toDigits (by decide) (by decide) 0 n)

theorem splitSign_toDigits (hsign : sign = [] ∨ sign = ['-']) (n : Nat) :
    splitSign (sign ++ Nat.toDigits 10 n) = (!sign.isEmpty, Nat.toDigits 10 n) := by
  rcases hsign with rfl | rfl
  · exact splitSign_of_digits isDigitOf_of_mem_toDigits
  · rfl

/-- Digits with or without a minus in front have the form of a whole number: there is one at
least, and no needless zero in front of them. -/
theorem decimalNumeral_toDigits (hsign : sign = [] ∨ sign = ['-']) (n : Nat) :
    decimalNumeral (sign ++ Nat.toDigits 10 n) =
      some (.whole 10 (sign ++ Nat.toDigits 10 n)) := by
  have hrest : (Nat.toDigits 10 n).dropWhile Char.isDigit = [] :=
    List.dropWhile_eq_nil_iff.mpr fun c hc => isDigit_of_mem_toDigits hc
  have hform : ¬ (Nat.toDigits 10 n = [] ∨
      ((Nat.toDigits 10 n).head? = some '0' ∧ Nat.toDigits 10 n ≠ ['0'])) := by
    rintro (hnil | ⟨hhead, hmore⟩)
    · exact Nat.toDigits_ne_nil hnil
    · rw [eq_zero_of_head_toDigits hhead] at hmore
      exact hmore rfl
  simp only [decimalNumeral, splitSign_toDigits hsign, hrest, if_neg hform, if_true]

/-- They are neither behind a radix mark nor the name of an infinity. -/
theorem numeral?_toDigits (hsign : sign = [] ∨ sign = ['-']) (n : Nat) :
    numeral? (sign ++ Nat.toDigits 10 n) = some (.whole 10 (sign ++ Nat.toDigits 10 n)) := by
  have hsplit := splitSign_toDigits hsign n
  have hnot {c : Char} (hc : isDigitOf 10 c = false) : c ∉ Nat.toDigits 10 n :=
    not_mem_of_digits isDigitOf_of_mem_toDigits hc
  have hunmarked (mark : Char) (hmark : isDigitOf 10 mark = false) (rest : List Char) :
      sign ++ Nat.toDigits 10 n ≠ '0' :: mark :: rest := by
    intro heq
    rw [heq] at hsplit
    have hall : '0' :: mark :: rest = Nat.toDigits 10 n := congrArg Prod.snd hsplit
    exact hnot hmark (hall ▸ List.mem_cons_of_mem _ List.mem_cons_self)
  have hunnamed (letter : Char) (hletter : isDigitOf 10 letter = false) (rest : List Char) :
      (Nat.toDigits 10 n == letter :: rest) = false :=
    beq_eq_false_iff_ne.mpr fun heq => hnot hletter (heq ▸ List.mem_cons_self)
  have hspecial : isSpecial (sign ++ Nat.toDigits 10 n) = false := by
    rw [isSpecial, hsplit]
    exact Bool.or_eq_false_iff.mpr ⟨hunnamed 'i' rfl _, hunnamed 'n' rfl _⟩
  unfold numeral?
  split
  · exact absurd ‹_› (hunmarked 'x' rfl _)
  · exact absurd ‹_› (hunmarked 'o' rfl _)
  · exact absurd ‹_› (hunmarked 'b' rfl _)
  · rw [hspecial, if_neg Bool.false_ne_true, decimalNumeral_toDigits hsign]

end Form

/-- **A whole number is read from its digits**, with a minus in front if it is negative, as far as
it fits into 128 bits. -/
theorem value_decimal {i : Int} (hlo : -2 ^ 127 ≤ i) (hhi : i < 2 ^ 128) :
    (numeral? (decimal i)).bind Numeral.integer? = some i := by
  have hsign : (if i < 0 then ['-'] else []) = [] ∨ (if i < 0 then ['-'] else []) = ['-'] := by
    split
    · exact .inr rfl
    · exact .inl rfl
  have hread : digitsValue? 10 (Nat.toDigits 10 i.natAbs) = some i.natAbs :=
    (digitsValue?_eq_some_iff (by decide)).mpr
      ⟨Nat.toDigits_ne_nil, Text.writes_toDigits (by decide) (by decide) 0 i.natAbs⟩
  rw [decimal, numeral?_toDigits hsign, Option.bind_some,
    integer?_eq_some_iff (splitSign_toDigits hsign i.natAbs)]
  refine ⟨i.natAbs, hread, ?_, hlo, hhi⟩
  by_cases hneg : i < 0
  · rw [if_pos hneg]
    show i = -(i.natAbs : Int)
    omega
  · rw [if_neg hneg]
    show i = (i.natAbs : Int)
    omega

end SandboxCpu.Toml
