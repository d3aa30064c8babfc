import SandboxCpu.Image.HexText
import SandboxCpu.Proofs.Text.Numeral

/-!
# What a token denotes

A token of an image is a row of radix marks, and behind them hexadecimal digits of either
case, two for each byte.  The bytes are those whose two digits are written there
(`Spelled`), which says nothing of how the digits are read: it is the way in which bytes
are shown, up to the case of the letters.  A token of eight digits is a word, with its
bytes turned round (`Denotes`).

What decodes the digits may be anything that reads those that spell some bytes, and nothing
else (`Decoder.Exact`).  The decoder given here does (`digits_exact`).  It works on the bytes
of the text.  A character that is not ASCII is more than one of them, and none of these is a
digit, so that it makes no difference to what is accepted whether digits are counted as
characters or as bytes (`map_lowered_utf8`).

## Main results

* `exists_spelled_iff`: what spells some bytes is an even number of digits.
* `digits_exact`: the decoder reads what spells some bytes.
* `stripped_iff`: the digits are what is left without the marks.
* `token_eq_ok_iff`: a token is read as the bytes that it denotes.
-/

namespace SandboxCpu

namespace Text

/-! ## The digits of a number -/

theorem hexDigits_one {n : Nat} (hn : n < 16) : hexDigits 1 n = [n.digitChar] := by
  rw [hexDigits, Nat.toDigits_of_lt_base hn]
  rfl

/-- The last digit of a number is its remainder, and the digits in front of it are those of
the quotient. -/
theorem hexDigits_succ {width : Nat} (hwidth : 0 < width) (n : Nat) :
    hexDigits (width + 1) n = hexDigits width (n / 16) ++ [(n % 16).digitChar] := by
  rw [hexDigits, Nat.toDigits_eq_if (by decide)]
  split
  · -- the quotient of a single digit is written as zeros only
    rename_i hsmall
    obtain ⟨width, rfl⟩ : ∃ w, width = w + 1 := ⟨width - 1, by omega⟩
    rw [hexDigits, Nat.div_eq_of_lt hsmall, Nat.mod_eq_of_lt hsmall, Nat.toDigits_zero,
      List.length_singleton, List.length_singleton, Nat.add_sub_cancel, Nat.add_sub_cancel,
      List.replicate_succ']
  · rw [hexDigits, List.length_append, List.length_singleton, Nat.add_sub_add_right,
      List.append_assoc]

theorem exists_digit_of_mem_hexDigits {width n : Nat} {c : Char} (hc : c ∈ hexDigits width n) :
    ∃ v < 16, c = v.digitChar := by
  rcases List.mem_append.mp hc with hc | hc
  · exact ⟨0, by decide, List.eq_of_mem_replicate hc⟩
  · exact exists_digit_of_mem_toDigits (by decide) hc

/-- A byte has two digits. -/
theorem hexDigits_two (b : UInt8) :
    hexDigits 2 b.toNat = [(b.toNat / 16).digitChar, (b.toNat % 16).digitChar] := by
  have hb := b.toNat_lt
  rw [hexDigits_succ Nat.one_pos, hexDigits_one (by omega)]
  rfl

/-- Two digits are those of the byte that they make. -/
theorem hexDigits_byte {h₁ h₀ : Nat} (hhigh : h₁ < 16) (hlow : h₀ < 16) :
    hexDigits 2 (UInt8.ofNat (16 * h₁ + h₀)).toNat = [h₁.digitChar, h₀.digitChar] := by
  have hbyte : (UInt8.ofNat (16 * h₁ + h₀)).toNat = 16 * h₁ + h₀ := by
    rw [UInt8.toNat_ofNat']
    omega
  have hquotient : (16 * h₁ + h₀) / 16 = h₁ := by omega
  have hremainder : (16 * h₁ + h₀) % 16 = h₀ := by omega
  rw [hexDigits_two, hbyte, hquotient, hremainder]

end Text

namespace HexText

/-! ## Digits and bytes -/

/-- The hexadecimal digits of either case. -/
def digitCharacters : List Char :=
  ['0', '1', '2', '3', '4', '5', '6', '7', '8', '9', 'a', 'b', 'c', 'd', 'e', 'f', 'A', 'B', 'C',
    'D', 'E', 'F']

/-- Digits spell bytes: they are the two digits of each, in order and in any case. -/
def Spelled (ds : List Char) (bytes : List UInt8) : Prop :=
  ds.map Char.toLower = bytes.flatMap fun b => Text.hexDigits 2 b.toNat

instance (ds : List Char) (bytes : List UInt8) : Decidable (Spelled ds bytes) :=
  inferInstanceAs (Decidable (_ = _))

theorem mem_digitCharacters_iff {c : Char} :
    c ∈ digitCharacters ↔ ∃ v < 16, c.toLower = v.digitChar := by
  have hascii : ∀ n < 128,
      Char.ofNat n ∈ digitCharacters ↔ ∃ v < 16, (Char.ofNat n).toLower = v.digitChar := by
    decide +kernel
  by_cases hc : c.toNat < 128
  · have hdigit := hascii c.toNat hc
    rwa [Char.ofNat_toNat] at hdigit
  · have hall : digitCharacters.all (fun d => decide (d.toNat < 128)) = true := by decide
    have hlt (h : c ∈ digitCharacters) : c.toNat < 128 :=
      of_decide_eq_true (List.all_eq_true.mp hall c h)
    rw [Text.toLower_of_not_ascii (by omega)]
    refine ⟨fun h => absurd (hlt h) hc, fun ⟨v, hv, heq⟩ => absurd (Text.digitChar_lt hv) ?_⟩
    rwa [← heq]

theorem length_flatMap_hexDigits (bytes : List UInt8) :
    (bytes.flatMap fun b => Text.hexDigits 2 b.toNat).length = 2 * bytes.length := by
  induction bytes with
  | nil => rfl
  | cons b bytes ih =>
      rw [List.flatMap_cons, List.length_append, ih, Text.hexDigits_two, List.length_cons]
      simp only [List.length_cons, List.length_nil]
      omega

theorem Spelled.length_eq {ds : List Char} {bytes : List UInt8} (h : Spelled ds bytes) :
    ds.length = 2 * bytes.length := by
  rw [← length_flatMap_hexDigits, ← h, List.length_map]

/-- An even number of digits spells some bytes. -/
theorem exists_spelled : ∀ {ds : List Char}, ds.length % 2 = 0 → (∀ c ∈ ds, c ∈ digitCharacters) →
    ∃ bytes, Spelled ds bytes
  | [], _, _ => ⟨[], rfl⟩
  | [_], heven, _ => absurd heven Nat.one_ne_zero
  | high :: low :: ds, heven, hdigits => by
      obtain ⟨h₁, hh₁, hhigh⟩ := mem_digitCharacters_iff.mp (hdigits high (by simp))
      obtain ⟨h₀, hh₀, hlow⟩ := mem_digitCharacters_iff.mp (hdigits low (by simp))
      have heven' : ds.length % 2 = 0 := by
        simp only [List.length_cons] at heven
        omega
      obtain ⟨bytes, hbytes⟩ := exists_spelled heven' fun c hc => hdigits c (by simp [hc])
      refine ⟨UInt8.ofNat (16 * h₁ + h₀) :: bytes, ?_⟩
      rw [Spelled, List.flatMap_cons, Text.hexDigits_byte hh₁ hh₀, ← hbytes, List.map_cons,
        List.map_cons, hhigh, hlow]
      rfl

/-- And nothing else does. -/
theorem exists_spelled_iff {ds : List Char} :
    (∃ bytes, Spelled ds bytes) ↔ ds.length % 2 = 0 ∧ ∀ c ∈ ds, c ∈ digitCharacters := by
  refine ⟨fun ⟨bytes, h⟩ => ⟨?_, fun c hc => ?_⟩, fun ⟨heven, hdigits⟩ =>
    exists_spelled heven hdigits⟩
  · rw [h.length_eq]
    omega
  · have hlower : c.toLower ∈ bytes.flatMap fun b => Text.hexDigits 2 b.toNat := by
      rw [← h]
      exact List.mem_map_of_mem hc
    obtain ⟨b, -, hdigit⟩ := List.mem_flatMap.mp hlower
    exact mem_digitCharacters_iff.mpr (Text.exists_digit_of_mem_hexDigits hdigit)

/-! ## Reading digits -/

/-- The character of a byte, in lower case. -/
def lowered (b : UInt8) : Char := (Char.ofNat b.toNat).toLower

theorem digit_eq_ok_iff {position v : Nat} {b : UInt8} :
    digit position b = .ok v ↔ v < 16 ∧ lowered b = v.digitChar := by
  rw [digit, lowered, ← Text.hexValue?_eq_some_iff]
  cases Text.hexValue? (Char.ofNat b.toNat) with
  | none => simp only [reduceCtorEq]
  | some w => simp only [Except.ok.injEq, Option.some.injEq]

/-- The first two digits are the first byte, if they are digits and the others can be
read. -/
theorem pairs_cons_eq_ok_iff {position : Nat} {high low : UInt8} {rest out : List UInt8} :
    pairs position (high :: low :: rest) = .ok out ↔
      ∃ h₁ h₀ tail, digit position high = .ok h₁ ∧ digit (position + 1) low = .ok h₀ ∧
        pairs (position + 2) rest = .ok tail ∧ out = UInt8.ofNat (16 * h₁ + h₀) :: tail := by
  rw [pairs]
  cases digit position high with
  | error e => exact ⟨nofun, fun ⟨_, _, _, h, _⟩ => nomatch h⟩
  | ok h₁ =>
      cases digit (position + 1) low with
      | error e => exact ⟨nofun, fun ⟨_, _, _, _, h, _⟩ => nomatch h⟩
      | ok h₀ =>
          cases pairs (position + 2) rest with
          | error e => exact ⟨nofun, fun ⟨_, _, _, _, _, h, _⟩ => nomatch h⟩
          | ok tail =>
              constructor
              · intro h
                exact ⟨h₁, h₀, tail, rfl, rfl, rfl, (Except.ok.inj h).symm⟩
              · rintro ⟨_, _, _, h₁', h₀', htail, rfl⟩
                cases h₁'
                cases h₀'
                cases htail
                rfl

/-- An even number of bytes is read as digits of the bytes that they spell. -/
theorem pairs_eq_ok_iff {position : Nat} {bs : List UInt8} : ∀ {out : List UInt8},
    bs.length % 2 = 0 → (pairs position bs = .ok out ↔
      bs.map lowered = out.flatMap fun b => Text.hexDigits 2 b.toNat) := by
  induction position, bs using pairs.induct with
  | case1 position high low rest ih =>
      intro out heven
      have heven' : rest.length % 2 = 0 := by
        simp only [List.length_cons] at heven
        omega
      rw [pairs_cons_eq_ok_iff]
      constructor
      · rintro ⟨h₁, h₀, tail, hhigh, hlow, htail, rfl⟩
        obtain ⟨hh₁, hhigh⟩ := digit_eq_ok_iff.mp hhigh
        obtain ⟨hh₀, hlow⟩ := digit_eq_ok_iff.mp hlow
        rw [List.flatMap_cons, Text.hexDigits_byte hh₁ hh₀, ← (ih heven').mp htail, List.map_cons,
          List.map_cons, hhigh, hlow]
        rfl
      · intro h
        cases out with
        | nil => cases h
        | cons b tail =>
            have hb := b.toNat_lt
            rw [List.flatMap_cons, Text.hexDigits_two] at h
            obtain ⟨hhigh, htail⟩ := List.cons.inj h
            obtain ⟨hlow, htail⟩ := List.cons.inj htail
            refine ⟨b.toNat / 16, b.toNat % 16, tail, digit_eq_ok_iff.mpr ⟨by omega, hhigh⟩,
              digit_eq_ok_iff.mpr ⟨by omega, hlow⟩, (ih heven').mpr htail, ?_⟩
            rw [Nat.div_add_mod, UInt8.ofNat_toNat]
  | case2 bs position hshort =>
      intro out heven
      have hnil : bs = [] := by
        rcases bs with _ | ⟨b, _ | ⟨b', bs⟩⟩
        · rfl
        · exact absurd heven Nat.one_ne_zero
        · exact (hshort b b' bs rfl).elim
      subst hnil
      change Except.ok [] = Except.ok out ↔ _
      cases out with
      | nil => exact ⟨fun _ => rfl, fun _ => rfl⟩
      | cons b out =>
          rw [List.flatMap_cons, Text.hexDigits_two]
          exact ⟨nofun, nofun⟩

/-- An odd number of bytes is not read, and spells nothing. -/
theorem digits_eq_ok_iff {bs out : List UInt8} :
    digits bs = .ok out ↔ bs.map lowered = out.flatMap fun b => Text.hexDigits 2 b.toNat := by
  unfold digits
  split
  · rename_i hodd
    refine ⟨nofun, fun h => ?_⟩
    have hlength := congrArg List.length h
    rw [List.length_map, length_flatMap_hexDigits] at hlength
    omega
  · rename_i heven
    exact pairs_eq_ok_iff (by omega)

/-- A character that is ASCII is one byte. -/
theorem utf8EncodeChar_of_ascii {c : Char} (h : c.toNat < 128) :
    String.utf8EncodeChar c = [UInt8.ofNat c.toNat] := by
  have hval : c.val.toNat < 128 := h
  exact if_pos (by omega)

/-- Any other is several, none of which is ASCII. -/
theorem utf8EncodeChar_of_not_ascii {c : Char} (h : 128 ≤ c.toNat) :
    ∃ b bs, String.utf8EncodeChar c = b :: bs ∧ 128 ≤ b.toNat := by
  have hval : 128 ≤ c.val.toNat := h
  simp only [String.utf8EncodeChar, if_neg (show ¬ c.val.toNat ≤ 127 by omega)]
  split
  · exact ⟨_, _, rfl, by rw [UInt8.toNat_ofNat']; omega⟩
  · split <;> exact ⟨_, _, rfl, by rw [UInt8.toNat_ofNat']; omega⟩

theorem lowered_of_ascii {c : Char} (h : c.toNat < 128) :
    lowered (UInt8.ofNat c.toNat) = c.toLower := by
  rw [lowered, UInt8.toNat_ofNat', Nat.mod_eq_of_lt (by omega), Char.ofNat_toNat]

theorem lowered_of_not_ascii {b : UInt8} (h : 128 ≤ b.toNat) : 128 ≤ (lowered b).toNat := by
  have hb := b.toNat_lt
  have hvalid : (Char.ofNat b.toNat).toNat = b.toNat := by
    rw [Char.ofNat, dif_pos (.inl (by omega))]
    rfl
  rw [lowered, Text.toLower_of_not_ascii (by omega), hvalid]
  exact h

/-- Digits are the same in characters and in bytes. -/
theorem map_lowered_utf8 {ds : List Char} : ∀ {ls : List Char}, (∀ l ∈ ls, l.toNat < 128) →
    ((ds.flatMap String.utf8EncodeChar).map lowered = ls ↔ ds.map Char.toLower = ls) := by
  induction ds with
  | nil => exact fun _ => Iff.rfl
  | cons c ds ih =>
      intro ls hls
      by_cases hc : c.toNat < 128
      · rw [List.flatMap_cons, utf8EncodeChar_of_ascii hc, List.singleton_append, List.map_cons,
          List.map_cons, lowered_of_ascii hc]
        cases ls with
        | nil => simp only [reduceCtorEq]
        | cons l ls =>
            rw [List.cons.injEq, List.cons.injEq, ih fun l hl => hls l (List.mem_cons_of_mem _ hl)]
      · obtain ⟨b, bs, hbytes, hb⟩ := utf8EncodeChar_of_not_ascii (c := c) (by omega)
        rw [List.flatMap_cons, hbytes, List.cons_append, List.map_cons, List.map_cons,
          Text.toLower_of_not_ascii (by omega)]
        cases ls with
        | nil => simp only [reduceCtorEq]
        | cons l ls =>
            have hl := hls l List.mem_cons_self
            have hfirst : lowered b ≠ l := fun heq => by
              have hlow := lowered_of_not_ascii hb
              rw [heq] at hlow
              omega
            have hfirst' : c ≠ l := fun heq => hc (heq ▸ hl)
            rw [List.cons.injEq, List.cons.injEq]
            exact ⟨fun h => absurd h.1 hfirst, fun h => absurd h.1 hfirst'⟩

theorem ascii_of_mem_hexDigits {bytes : List UInt8} :
    ∀ l ∈ bytes.flatMap fun b => Text.hexDigits 2 b.toNat, l.toNat < 128 := by
  intro l hl
  obtain ⟨b, -, hdigit⟩ := List.mem_flatMap.mp hl
  obtain ⟨v, hv, rfl⟩ := Text.exists_digit_of_mem_hexDigits hdigit
  exact Text.digitChar_lt hv

/-- A decoder is exact if it reads those texts in UTF-8 that spell some bytes, as these
bytes, and refuses all others. -/
def Decoder.Exact (decode : Decoder) : Prop :=
  ∀ ds bytes, decode (ds.flatMap String.utf8EncodeChar) = .ok bytes ↔ Spelled ds bytes

/-- **The decoder of this library is exact.** -/
theorem digits_exact : Decoder.Exact digits :=
  fun _ _ => digits_eq_ok_iff.trans (map_lowered_utf8 ascii_of_mem_hexDigits)

/-! ## Tokens -/

/-- What is left of a token without its radix marks. -/
def Stripped (token ds : List Char) : Prop :=
  (∃ k, token = (List.replicate k ['0', 'x']).flatten ++ ds) ∧ ¬ ['0', 'x'] <+: ds

theorem dropMarks_of_not_mark {ds : List Char} (h : ¬ ['0', 'x'] <+: ds) : dropMarks ds = ds := by
  unfold dropMarks
  split
  · rename_i rest
    exact absurd ⟨rest, rfl⟩ h
  · rfl

theorem stripped_iff {token ds : List Char} : Stripped token ds ↔ dropMarks token = ds := by
  constructor
  · rintro ⟨⟨k, rfl⟩, hnot⟩
    induction k with
    | zero => exact dropMarks_of_not_mark hnot
    | succ k ih => exact ih
  · rintro rfl
    induction token using dropMarks.induct with
    | case1 rest ih =>
        obtain ⟨⟨k, hk⟩, hnot⟩ := ih
        refine ⟨⟨k + 1, ?_⟩, hnot⟩
        rw [List.replicate_succ, List.flatten_cons, List.append_assoc, dropMarks, ← hk]
        rfl
    | case2 token hmark =>
        have hnot : ¬ ['0', 'x'] <+: token := fun ⟨rest, hrest⟩ => hmark rest hrest.symm
        rw [dropMarks_of_not_mark hnot]
        exact ⟨⟨0, rfl⟩, hnot⟩

/-- The bytes of a token.  Those of a word are turned round. -/
def Denotes (token : List Char) (out : List UInt8) : Prop :=
  ∃ ds bytes, Stripped token ds ∧ Spelled ds bytes ∧
    out = if ds.length = 8 then bytes.reverse else bytes

/-- **A token is read as the bytes that it denotes**, and not read if it denotes none. -/
theorem token_eq_ok_iff {decode : Decoder} (hdecode : decode.Exact) {cs : List Char}
    {out : List UInt8} : token cs decode = .ok out ↔ Denotes cs out := by
  have eight_iff (n : Nat) : 2 * n = 8 ↔ n = 4 := by omega
  constructor
  · intro h
    unfold token at h
    cases hdigits : decode ((dropMarks cs).flatMap String.utf8EncodeChar) with
    | error e =>
        rw [hdigits] at h
        cases h
    | ok bytes =>
        rw [hdigits] at h
        cases h
        have hbytes := (hdecode _ bytes).mp hdigits
        refine ⟨_, bytes, stripped_iff.mpr rfl, hbytes, ?_⟩
        simp only [hbytes.length_eq, eight_iff]
  · rintro ⟨ds, bytes, hstripped, hbytes, rfl⟩
    rw [← stripped_iff.mp hstripped] at hbytes ⊢
    rw [token, (hdecode _ bytes).mpr hbytes]
    simp only [hbytes.length_eq, eight_iff]
    rfl

end HexText

end SandboxCpu
