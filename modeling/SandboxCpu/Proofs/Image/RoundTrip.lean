import SandboxCpu.Isa.Listing
import SandboxCpu.Proofs.Image.Grammar
import SandboxCpu.Proofs.Machine.Listing
import SandboxCpu.Proofs.Word.Integer

/-!
# Words as text, and back

The digits of a number are those of its bytes, the most significant first
(`hexDigits_bytes`).  A word is kept with its least significant byte first, and a token of
eight digits is turned round.  So the digits of a word, in either case and behind a radix
mark or not, denote the bytes that it is kept as (`Spells.denotes`).  The layout of the text
does not matter.

A listing has the digits of a word in the second column of its line, where the word stands
behind the address (`column_line`).  The columns of a listing, one under the other, are a
text of the image that was listed, up to its last whole word.

## Main results

* `parse_of_spells`: the image of words that are written as tokens.
* `parse_columns`: the image of the columns of a listing.
* `words_and_listing_round_trip`: both.
-/

namespace SandboxCpu

namespace Text

/-! ## The bytes of a number -/

/-- Two digits for each byte, the most significant byte first. -/
theorem hexDigits_bytes {k : Nat} : ∀ {n : Nat}, n < 256 ^ (k + 1) →
    hexDigits (2 * (k + 1)) n =
      ((List.range (k + 1)).map fun i => UInt8.ofNat (n / 256 ^ i)).reverse.flatMap
        fun b => hexDigits 2 b.toNat := by
  induction k with
  | zero =>
      intro n hn
      have hbyte : (UInt8.ofNat n).toNat = n := by
        rw [UInt8.toNat_ofNat']
        omega
      show hexDigits 2 n = hexDigits 2 (UInt8.ofNat (n / 256 ^ 0)).toNat ++ []
      rw [List.append_nil, Nat.pow_zero, Nat.div_one, hbyte]
  | succ k ih =>
      intro n hn
      have hquotient : n / 256 < 256 ^ (k + 1) := by
        rw [Nat.pow_succ] at hn
        exact Nat.div_lt_of_lt_mul (by rwa [Nat.mul_comm])
      have hlast : hexDigits 2 (UInt8.ofNat n).toNat =
          [(n / 16 % 16).digitChar, (n % 16).digitChar] := by
        have hhigh : n % 2 ^ 8 / 16 = n / 16 % 16 := by omega
        have hlow : n % 2 ^ 8 % 16 = n % 16 := by omega
        rw [hexDigits_two, UInt8.toNat_ofNat', hhigh, hlow]
      have hfront : hexDigits (2 * (k + 1 + 1)) n =
          hexDigits (2 * (k + 1)) (n / 256) ++ hexDigits 2 (UInt8.ofNat n).toNat := by
        rw [Nat.mul_succ, hexDigits_succ (by omega), hexDigits_succ (by omega),
          Nat.div_div_eq_div_mul, List.append_assoc, hlast]
        rfl
      have hbytes : ((List.range (k + 1 + 1)).map fun i => UInt8.ofNat (n / 256 ^ i)) =
          UInt8.ofNat n :: (List.range (k + 1)).map fun i => UInt8.ofNat (n / 256 / 256 ^ i) := by
        rw [List.range_succ_eq_map, List.map_cons, List.map_map, Nat.pow_zero, Nat.div_one]
        simp only [Function.comp_def, Nat.succ_eq_add_one, Nat.pow_succ', Nat.div_div_eq_div_mul]
      rw [hfront, ih hquotient, hbytes, List.reverse_cons, List.flatMap_append,
        List.flatMap_singleton]

theorem hexDigits_word (w : UInt32) :
    hexDigits 8 w.toNat =
      (LittleEndian.bytes w).reverse.flatMap fun b => hexDigits 2 b.toNat := by
  rw [LittleEndian.bytes_eq]
  exact hexDigits_bytes (k := 3) w.toNat_lt

theorem length_hexDigits_word (w : UInt32) : (hexDigits 8 w.toNat).length = 8 := by
  rw [hexDigits_word, HexText.length_flatMap_hexDigits, List.length_reverse,
    LittleEndian.length_bytes]

end Text

namespace LittleEndian

/-- The bytes of the words of an image are the image, up to its last whole word. -/
theorem image_words (bytes : List UInt8) :
    image (words bytes) = bytes.take (4 * (bytes.length / 4)) := by
  induction bytes using words.induct with
  | case1 b₀ b₁ b₂ b₃ rest ih =>
      have hlength :
          4 * ((b₀ :: b₁ :: b₂ :: b₃ :: rest).length / 4) = 4 * (rest.length / 4) + 4 := by
        simp only [List.length_cons]
        omega
      rw [hlength, words, image, List.flatMap_cons, bytes_word]
      exact congrArg ([b₀, b₁, b₂, b₃] ++ ·) ih
  | case2 bytes hshort =>
      have hwords : words bytes = [] := words.eq_2 bytes hshort
      have hnone := length_words bytes
      rw [hwords, List.length_nil] at hnone
      rw [hwords, ← hnone]
      rfl

end LittleEndian

namespace HexText

/-! ## Words as tokens -/

/-- A token spells a word: its eight digits in either case, behind a radix mark or not. -/
def Spells (w : UInt32) (t : List Char) : Prop :=
  ∃ ds, ds.map Char.toLower = Text.hexDigits 8 w.toNat ∧ (t = ds ∨ t = ['0', 'x'] ++ ds)

/-- **A spelled word denotes the bytes that it is kept as.** -/
theorem Spells.denotes {w : UInt32} {t : List Char} (h : Spells w t) :
    Denotes t (LittleEndian.bytes w) := by
  obtain ⟨ds, hds, ht⟩ := h
  have hspelled : Spelled ds (LittleEndian.bytes w).reverse := hds.trans (Text.hexDigits_word w)
  have hlength : ds.length = 8 := by rw [← List.length_map, hds, Text.length_hexDigits_word]
  have hnot : ¬ ['0', 'x'] <+: ds := by
    rintro ⟨rest, rfl⟩
    have hx := (exists_spelled_iff.mp ⟨_, hspelled⟩).2 'x' (by simp)
    revert hx
    decide
  refine ⟨ds, _, ⟨?_, hnot⟩, hspelled, ?_⟩
  · rcases ht with rfl | rfl
    · exact ⟨0, rfl⟩
    · exact ⟨1, rfl⟩
  · rw [if_pos hlength, List.reverse_reverse]

variable {decode : Decoder}

/-- **The image of words that are written as tokens is the image of the words.** -/
theorem parse_of_spells (hdecode : decode.Exact) {words : List UInt32} {tokens : List (List Char)} {text : String}
    (hlaid : Laid text.toList tokens) (hwords : List.Forall₂ Spells words tokens) :
    parse text decode = .ok (LittleEndian.image words) := by
  refine (parse_eq_ok_iff hdecode).mpr ⟨words.map LittleEndian.bytes, ?_, (List.flatMap_def ..)⟩
  rw [laid_iff.mp hlaid, List.forall₂_map_right_iff]
  exact (hwords.imp fun _ _ h => h.denotes).flip

/-! ## Listings as text -/

/-- The second column of a line, as white space divides it. -/
def column (line : String) : String := String.ofList ((Text.tokens line.toList).getD 1 [])

theorem isTokenChar_of_mem_hexDigits {width n : Nat} {c : Char}
    (hc : c ∈ Text.hexDigits width n) : IsTokenChar c := by
  have hall : ∀ v < 16, IsTokenChar v.digitChar := by decide
  obtain ⟨v, hv, rfl⟩ := Text.exists_digit_of_mem_hexDigits hc
  exact hall v hv

theorem hexDigits_word_ne_nil (w : UInt32) : Text.hexDigits 8 w.toNat ≠ [] :=
  List.ne_nil_of_length_eq_add_one (Text.length_hexDigits_word w)

/-- The second column of a listing line has the digits of the word. -/
theorem column_line (w a : UInt32) :
    column (Listing.line w a) = Text.hex 8 w.toNat := by
  have htext : (Listing.line w a).toList =
      ('0' :: 'x' :: (Text.hexDigits 4 a.toNat ++ [':'])) ++ ' ' :: (Text.hexDigits 8 w.toNat ++
        ' ' :: (' ' :: ' ' :: ' ' :: (Listing.disassemble w).toList)) := by
    simp only [Listing.line, Text.address, Text.hex0x, Text.hex, String.toList_append,
      String.toList_ofList]
    simp
  have hplace : ∀ c ∈ '0' :: 'x' :: (Text.hexDigits 4 a.toNat ++ [':']),
      Text.isBlank c = false := by
    simp only [List.forall_mem_cons, List.forall_mem_append]
    refine ⟨by decide, by decide, fun c hc => (isTokenChar_of_mem_hexDigits hc).1, by decide, nofun⟩
  rw [column, htext, Text.tokens_solid_blank (List.cons_ne_nil _ _) hplace (by decide),
    Text.tokens_solid_blank (hexDigits_word_ne_nil w)
      (fun c hc => (isTokenChar_of_mem_hexDigits hc).1) (by decide)]
  rfl

/-- Tokens that stand one under the other. -/
theorem laid_lines {tail : List Char} (htail : tail = [] ∨ tail = ['\n']) :
    ∀ {tokens : List (List Char)}, (∀ t ∈ tokens, t ≠ [] ∧ ∀ c ∈ t, IsTokenChar c) →
      Laid (List.intercalate ['\n'] tokens ++ tail) tokens := by
  have hnothing : Laid tail [] := by
    rcases htail with rfl | rfl
    · exact .nothing
    · exact .blank (by decide) .nothing
  have hbreak : ∀ c ∈ tail.head?, ¬ IsTokenChar c := by
    rcases htail with rfl | rfl
    · exact nofun
    · rintro c ⟨⟩
      decide
  intro tokens
  induction tokens with
  | nil => exact fun _ => hnothing
  | cons t tokens ih =>
      intro h
      obtain ⟨⟨hne, ht⟩, htokens⟩ := List.forall_mem_cons.mp h
      cases tokens with
      | nil =>
          rw [List.intercalate_singleton]
          exact .token hne ht hbreak hnothing
      | cons t' tokens =>
          rw [List.intercalate_cons_cons, List.append_assoc, List.append_assoc]
          refine .token hne ht ?_ (.blank (by decide) (ih htokens))
          rintro c ⟨⟩
          decide

/-- The second columns of a listing are the digits of the words of the image. -/
theorem map_column_ofImage (image : List UInt8) (start : UInt32) :
    (Listing.ofImage image start).map column =
      (LittleEndian.words image).map fun w => Text.hex 8 w.toNat := by
  rw [Listing.ofImage]
  refine List.ext_getElem ?_ fun i _ _ => ?_
  · rw [List.length_map, List.length_map, List.length_mapIdx]
  · rw [List.getElem_map, List.getElem_map, List.getElem_mapIdx, column_line]

theorem spells_hexDigits (w : UInt32) : Spells w (Text.hexDigits 8 w.toNat) := by
  have hall : ∀ v < 16, v.digitChar.toLower = v.digitChar := by decide
  have hlower : ∀ c ∈ Text.hexDigits 8 w.toNat, c.toLower = id c := by
    intro c hc
    obtain ⟨v, hv, rfl⟩ := Text.exists_digit_of_mem_hexDigits hc
    exact hall v hv
  exact ⟨_, (List.map_congr_left hlower).trans (List.map_id _), .inl rfl⟩

/-- **The columns of a listing, one under the other, are a text of the image**, up to its last
whole word. -/
theorem parse_columns (hdecode : decode.Exact) (image : List UInt8) (start : UInt32)
    {tail : String} (htail : tail = "" ∨ tail = "\n") :
    parse ("\n".intercalate ((Listing.ofImage image start).map column) ++ tail) decode =
      .ok (image.take (4 * (image.length / 4))) := by
  have htext : ("\n".intercalate ((Listing.ofImage image start).map column) ++ tail).toList =
      List.intercalate ['\n']
        ((LittleEndian.words image).map fun w => Text.hexDigits 8 w.toNat) ++ tail.toList := by
    rw [map_column_ofImage, String.toList_append, String.toList_intercalate, List.map_map]
    simp only [Function.comp_def, Text.hex, String.toList_ofList]
    rfl
  have htail' : tail.toList = [] ∨ tail.toList = ['\n'] := by
    rcases htail with rfl | rfl
    · exact .inl rfl
    · exact .inr rfl
  have htokens : ∀ t ∈ (LittleEndian.words image).map fun w => Text.hexDigits 8 w.toNat,
      t ≠ [] ∧ ∀ c ∈ t, IsTokenChar c := by
    intro t ht
    obtain ⟨w, -, rfl⟩ := List.mem_map.mp ht
    exact ⟨hexDigits_word_ne_nil w, fun c hc => isTokenChar_of_mem_hexDigits hc⟩
  have hlaid := laid_lines htail' htokens
  rw [← htext] at hlaid
  rw [← LittleEndian.image_words]
  refine parse_of_spells hdecode hlaid ?_
  rw [List.forall₂_map_right_iff, List.forall₂_same]
  exact fun w _ => spells_hexDigits w

theorem length_column {image : List UInt8} {start : UInt32} {line : String}
    (hline : line ∈ Listing.ofImage image start) : (column line).length = 8 := by
  have hcolumn := List.mem_map_of_mem (f := column) hline
  rw [map_column_ofImage] at hcolumn
  obtain ⟨w, -, hw⟩ := List.mem_map.mp hcolumn
  rw [← hw, ← String.length_toList, Text.hex, String.toList_ofList, Text.length_hexDigits_word]

/-- **Words are read from their digits as they are kept in memory**, in every layout of the
text, and the column of a listing that has eight digits in each line is a text of the image
that was listed.  Any exact decoder of the digits will do. -/
theorem words_and_listing_round_trip (hdecode : decode.Exact) :
    (∀ (words : List UInt32) (tokens : List (List Char)) (text : String),
      Laid text.toList tokens → List.Forall₂ Spells words tokens →
        parse text decode = .ok (LittleEndian.image words)) ∧
    ∀ (image : List UInt8) (start : UInt32), image.length % 4 = 0 →
      (∀ line ∈ Listing.ofImage image start, (column line).length = 8) ∧
      ∀ tail : String, tail = "" ∨ tail = "\n" →
        parse ("\n".intercalate ((Listing.ofImage image start).map column) ++ tail) decode =
          .ok image := by
  refine ⟨fun _ _ _ => parse_of_spells hdecode, fun image start hwhole =>
    ⟨fun _ => length_column, fun tail htail => ?_⟩⟩
  rw [parse_columns hdecode image start htail,
    Nat.mul_div_cancel' (Nat.dvd_of_mod_eq_zero hwhole), List.take_length]

/-- Two words with a comment and a carriage return between them, and a listing of two
words. -/
theorem words_and_listing_round_trip_pair :
    parse "0x3100000A# ten\r\n\t000000fF " digits =
      .ok [0x0A, 0x00, 0x00, 0x31, 0xFF, 0x00, 0x00, 0x00] ∧
    parse ("\n".intercalate
      ((Listing.ofImage [0x0A, 0x00, 0x00, 0x31, 0x00, 0x00, 0x00, 0xF0] 0xFFFFFFFC).map column) ++
        "\n") digits = .ok [0x0A, 0x00, 0x00, 0x31, 0x00, 0x00, 0x00, 0xF0] := by
  obtain ⟨hwords, hlisting⟩ := words_and_listing_round_trip digits_exact
  refine ⟨hwords [0x3100000A, 0xFF] ["0x3100000A".toList, "000000fF".toList] _ ?_ ?_,
    (hlisting _ 0xFFFFFFFC rfl).2 _ (.inr rfl)⟩
  · exact laid_iff.mpr (by decide)
  · exact .cons ⟨"3100000A".toList, by decide, .inr rfl⟩
      (.cons ⟨"000000fF".toList, by decide, .inl rfl⟩ .nil)

end HexText

end SandboxCpu
