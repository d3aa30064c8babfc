import Mathlib.Data.List.Forall2
import Mathlib.Data.List.TakeWhile
import SandboxCpu.Proofs.Image.Token

/-!
# Which texts describe an image

A text is laid out as a list of tokens: between them, before and after them stand white
space and comments, which begin at `#` and end with their line (`Laid`).  This reads the
text from left to right and knows of no lines and no splitting.  It comes to the same as
cutting the text into lines, dropping the comment of each, and cutting what is left at
white space (`laid_iff`).  A line break is white space, a carriage return before it too.

The image of a text is what its tokens denote, one after the other, and there is one
exactly when each of them denotes something.  That is, when each is an even number of
digits behind its radix marks.  All that has to be known of the decoder of the digits is
that it is exact.

Two texts with a line break between them are laid out as the tokens of both, whatever the
first one ends with (`textTokens_newline`).

## Main results

* `laid_iff`: the tokens of a text.
* `parse_eq_ok_iff`: the image of a text.
* `parse_newline`: the image of two texts.
* `parse_follows_grammar`: all of this.
-/

namespace SandboxCpu

namespace Text

/-! ## Runs between white space -/

theorem tokens_blank {c : Char} {code : List Char} (hc : isBlank c = true) :
    tokens (c :: code) = tokens code := by
  rw [tokens, List.splitOnP_cons_eq_if_modifyHead, if_pos hc]
  rfl

theorem tokens_solid {t : List Char} (hne : t ≠ []) (ht : ∀ c ∈ t, isBlank c = false) :
    tokens t = [t] := by
  have hkept : (!t.isEmpty) = true := by
    rw [Bool.not_eq_true', List.isEmpty_eq_false_iff]
    exact hne
  rw [tokens, List.splitOnP_eq_singleton ht, List.filter_cons, if_pos hkept]
  rfl

theorem tokens_solid_blank {t code : List Char} {c : Char} (hne : t ≠ [])
    (ht : ∀ c ∈ t, isBlank c = false) (hc : isBlank c = true) :
    tokens (t ++ c :: code) = t :: tokens code := by
  have hsplit := List.splitOnP_append_cons_of_forall_mem ht c hc code
  have hone := tokens_solid hne ht
  rw [tokens, List.splitOnP_eq_singleton ht] at hone
  rw [tokens, hsplit, ← List.singleton_append, List.filter_append, hone]
  rfl

end Text

namespace HexText

/-! ## The layout of a text -/

/-- A character of a token. -/
def IsTokenChar (c : Char) : Prop := Text.isBlank c = false ∧ c ≠ '#'

/-- A text is laid out as a list of tokens. -/
inductive Laid : List Char → List (List Char) → Prop
  | nothing : Laid [] []
  /-- White space says nothing. -/
  | blank {c : Char} {text : List Char} {tokens : List (List Char)}
      (hc : Text.isBlank c = true) (h : Laid text tokens) : Laid (c :: text) tokens
  /-- Neither does a comment, which goes to the end of the line or of the text. -/
  | comment {body text : List Char} {tokens : List (List Char)} (hbody : '\n' ∉ body)
      (hend : ∀ c ∈ text.head?, c = '\n') (h : Laid text tokens) :
      Laid ('#' :: (body ++ text)) tokens
  /-- A token goes to white space, a comment or the end of the text. -/
  | token {t text : List Char} {tokens : List (List Char)} (hne : t ≠ [])
      (ht : ∀ c ∈ t, IsTokenChar c) (hend : ∀ c ∈ text.head?, ¬ IsTokenChar c)
      (h : Laid text tokens) : Laid (t ++ text) (t :: tokens)

instance (c : Char) : Decidable (IsTokenChar c) := inferInstanceAs (Decidable (_ ∧ _))

theorem not_isTokenChar_iff {c : Char} :
    ¬ IsTokenChar c ↔ Text.isBlank c = true ∨ c = '#' := by
  rw [IsTokenChar, ← Bool.not_eq_true]
  tauto

theorem ne_hash_of_blank {c : Char} (hc : Text.isBlank c = true) : c ≠ '#' := by
  rintro rfl
  cases hc

theorem IsTokenChar.ne_newline {c : Char} (hc : IsTokenChar c) : c ≠ '\n' := by
  rintro rfl
  cases hc.1

/-- The longest run of characters of a kind in front of a text. -/
theorem exists_run (p : Char → Prop) [DecidablePred p] (text : List Char) :
    ∃ run rest, text = run ++ rest ∧ (∀ c ∈ run, p c) ∧ ∀ c ∈ rest.head?, ¬ p c := by
  refine ⟨text.takeWhile p, text.dropWhile p, List.takeWhile_append_dropWhile.symm,
    fun c hc => ?_, fun c hc => ?_⟩
  · exact of_decide_eq_true (List.mem_takeWhile_imp (p := fun c => decide (p c)) hc)
  · have hnot := List.head?_dropWhile_not (fun c => decide (p c)) text
    rw [Option.mem_def.mp hc] at hnot
    exact of_decide_eq_false hnot

/-! ## The tokens of a line -/

/-- White space in front of a line says nothing. -/
theorem lineTokens_blank {c : Char} (hc : Text.isBlank c = true) (line : List Char) :
    lineTokens (c :: line) = lineTokens line := by
  have hhash : (c != '#') = true := bne_iff_ne.mpr (ne_hash_of_blank hc)
  rw [lineTokens, List.takeWhile_cons, if_pos hhash, Text.tokens_blank hc, lineTokens]

/-- A comment has no tokens. -/
theorem lineTokens_comment (body : List Char) : lineTokens ('#' :: body) = [] := rfl

/-- A token in front of a line is its first token. -/
theorem lineTokens_token {t line : List Char} (hne : t ≠ []) (ht : ∀ c ∈ t, IsTokenChar c)
    (hend : ∀ c ∈ line.head?, ¬ IsTokenChar c) :
    lineTokens (t ++ line) = t :: lineTokens line := by
  have hcode : (t ++ line).takeWhile (· != '#') = t ++ line.takeWhile (· != '#') :=
    List.takeWhile_append_of_pos fun c hc => bne_iff_ne.mpr (ht c hc).2
  have hsolid : ∀ c ∈ t, Text.isBlank c = false := fun c hc => (ht c hc).1
  rw [lineTokens, hcode]
  cases line with
  | nil =>
      rw [List.takeWhile_nil, List.append_nil, Text.tokens_solid hne hsolid]
      rfl
  | cons c line =>
      rcases not_isTokenChar_iff.mp (hend c rfl) with hc | rfl
      · have hhash : (c != '#') = true := bne_iff_ne.mpr (ne_hash_of_blank hc)
        rw [List.takeWhile_cons, if_pos hhash, Text.tokens_solid_blank hne hsolid hc,
          lineTokens_blank hc, lineTokens]
      · rw [List.takeWhile_cons_of_neg (by decide), List.append_nil, Text.tokens_solid hne hsolid,
          lineTokens_comment]

/-! ## The tokens of a text -/

/-- A line break divides the tokens. -/
theorem textTokens_newline (xs ys : List Char) :
    textTokens (xs ++ '\n' :: ys) = textTokens xs ++ textTokens ys := by
  rw [textTokens, List.splitOn_append_cons_self, List.flatMap_append]
  rfl

/-- The tokens of the first line come first. -/
theorem textTokens_line {line text : List Char} (hline : '\n' ∉ line)
    (hend : ∀ c ∈ text.head?, c = '\n') :
    textTokens (line ++ text) = lineTokens line ++ textTokens text := by
  have hone : textTokens line = lineTokens line := by
    rw [textTokens, List.splitOn_eq_singleton hline, List.flatMap_singleton]
  cases text with
  | nil =>
      rw [List.append_nil, hone]
      exact (List.append_nil _).symm
  | cons c text =>
      cases hend c rfl
      rw [textTokens_newline, hone]
      exact congrArg _ (textTokens_newline [] text).symm

theorem exists_line (text : List Char) :
    ∃ line rest, text = line ++ rest ∧ '\n' ∉ line ∧ ∀ c ∈ rest.head?, c = '\n' := by
  obtain ⟨line, rest, htext, hline, hrest⟩ := exists_run (· ≠ '\n') text
  exact ⟨line, rest, htext, fun h => hline _ h rfl, fun c hc => not_not.mp (hrest c hc)⟩

/-- What the text begins with, its first line begins with. -/
theorem forall_head_of_append {line rest : List Char} {p : Char → Prop}
    (h : ∀ c ∈ (line ++ rest).head?, p c) : ∀ c ∈ line.head?, p c := by
  cases line with
  | nil => exact nofun
  | cons _ _ => exact h

/-- A text that is laid out as some tokens has these tokens. -/
theorem Laid.textTokens_eq {text : List Char} {tokens : List (List Char)}
    (h : Laid text tokens) : textTokens text = tokens := by
  induction h with
  | nothing => rfl
  | @blank c text tokens hc _ ih =>
      by_cases hnewline : c = '\n'
      · subst hnewline
        rw [← ih]
        exact textTokens_newline [] text
      · obtain ⟨line, rest, rfl, hline, hrest⟩ := exists_line text
        rw [← List.cons_append, textTokens_line (by simp [hline, Ne.symm hnewline]) hrest,
          lineTokens_blank hc, ← textTokens_line hline hrest, ih]
  | @comment body text tokens hbody hend _ ih =>
      rw [← List.cons_append, textTokens_line (by simpa using hbody) hend, lineTokens_comment,
        List.nil_append, ih]
  | @token t text tokens hne ht hend _ ih =>
      obtain ⟨line, rest, rfl, hline, hrest⟩ := exists_line text
      have hline' : '\n' ∉ t ++ line := by
        rw [List.mem_append, not_or]
        exact ⟨fun h => (ht _ h).ne_newline rfl, hline⟩
      rw [← List.append_assoc, textTokens_line hline' hrest,
        lineTokens_token hne ht (forall_head_of_append hend), List.cons_append,
        ← textTokens_line hline hrest, ih]

/-- Every text is laid out in some way. -/
theorem exists_laid (text : List Char) : ∃ tokens, Laid text tokens := by
  -- on the length: a comment or a token takes several characters at once
  induction hn : text.length using Nat.strong_induction_on generalizing text with
  | _ n ih =>
    subst hn
    cases text with
    | nil => exact ⟨[], .nothing⟩
    | cons c text =>
        by_cases hc : IsTokenChar c
        · obtain ⟨t, rest, rfl, ht, hrest⟩ := exists_run IsTokenChar text
          have hshorter : rest.length < (c :: (t ++ rest)).length := by
            simp only [List.length_cons, List.length_append]
            omega
          obtain ⟨tokens, h⟩ := ih rest.length hshorter rest rfl
          refine ⟨(c :: t) :: tokens, .token (List.cons_ne_nil _ _) ?_ hrest h⟩
          exact List.forall_mem_cons.mpr ⟨hc, ht⟩
        · rcases not_isTokenChar_iff.mp hc with hblank | rfl
          · obtain ⟨tokens, h⟩ := ih text.length (Nat.lt_succ_self _) text rfl
            exact ⟨tokens, .blank hblank h⟩
          · obtain ⟨body, rest, rfl, hbody, hrest⟩ := exists_line text
            have hshorter : rest.length < ('#' :: (body ++ rest)).length := by
              simp only [List.length_cons, List.length_append]
              omega
            obtain ⟨tokens, h⟩ := ih rest.length hshorter rest rfl
            exact ⟨tokens, .comment hbody hrest h⟩

/-- **The tokens of a text** are those that it is laid out as. -/
theorem laid_iff {text : List Char} {tokens : List (List Char)} :
    Laid text tokens ↔ textTokens text = tokens := by
  refine ⟨Laid.textTokens_eq, ?_⟩
  rintro rfl
  obtain ⟨tokens, h⟩ := exists_laid text
  rwa [h.textTokens_eq]

/-! ## The image of a text -/

section Image

variable {decode : Decoder}

theorem mapM_token_eq_ok_iff (hdecode : decode.Exact) {tokens : List (List Char)} :
    ∀ {parts : List (List UInt8)}, (tokens.mapM fun cs => token cs decode) = .ok parts ↔
      List.Forall₂ Denotes tokens parts := by
  induction tokens with
  | nil =>
      intro parts
      rw [List.forall₂_nil_left_iff]
      exact ⟨fun h => (Except.ok.inj h).symm, fun h => h ▸ rfl⟩
  | cons t tokens ih =>
      intro parts
      rw [List.mapM_cons, List.forall₂_cons_left_iff]
      simp only [← token_eq_ok_iff hdecode, ← ih]
      cases token t decode with
      | error e => exact ⟨nofun, fun ⟨_, _, h, _⟩ => nomatch h⟩
      | ok out =>
          cases tokens.mapM fun cs => token cs decode with
          | error e => exact ⟨nofun, fun ⟨_, _, _, h, _⟩ => nomatch h⟩
          | ok outs =>
              constructor
              · intro h
                exact ⟨out, outs, rfl, rfl, (Except.ok.inj h).symm⟩
              · rintro ⟨_, _, hout, houts, rfl⟩
                cases hout
                cases houts
                rfl

/-- **The image of a text** is what its tokens denote, in order. -/
theorem parse_eq_ok_iff (hdecode : decode.Exact) {text : String} {image : List UInt8} :
    parse text decode = .ok image ↔
      ∃ parts, List.Forall₂ Denotes (textTokens text.toList) parts ∧ image = parts.flatten := by
  simp only [← mapM_token_eq_ok_iff hdecode]
  rw [parse]
  cases (textTokens text.toList).mapM fun cs => token cs decode with
  | error e => exact ⟨nofun, fun ⟨_, h, _⟩ => nomatch h⟩
  | ok parts =>
      constructor
      · intro h
        exact ⟨parts, rfl, (Except.ok.inj h).symm⟩
      · rintro ⟨_, h, rfl⟩
        cases h
        rfl

/-- A token denotes something when it is an even number of digits behind its marks. -/
theorem exists_denotes_iff {t : List Char} :
    (∃ out, Denotes t out) ↔
      ∃ ds, Stripped t ds ∧ ds.length % 2 = 0 ∧ ∀ c ∈ ds, c ∈ digitCharacters := by
  simp only [← exists_spelled_iff]
  constructor
  · rintro ⟨_, ds, bytes, hds, hbytes, -⟩
    exact ⟨ds, hds, bytes, hbytes⟩
  · rintro ⟨ds, hds, bytes, hbytes⟩
    exact ⟨_, ds, bytes, hds, hbytes, rfl⟩

theorem exists_forall₂_iff {α β : Type} {r : α → β → Prop} {xs : List α} :
    (∃ ys, List.Forall₂ r xs ys) ↔ ∀ x ∈ xs, ∃ y, r x y := by
  induction xs with
  | nil => exact ⟨fun _ => nofun, fun _ => ⟨[], .nil⟩⟩
  | cons x xs ih =>
      rw [List.forall_mem_cons, ← ih]
      constructor
      · rintro ⟨_, _ | ⟨hx, hxs⟩⟩
        exact ⟨⟨_, hx⟩, _, hxs⟩
      · rintro ⟨⟨y, hx⟩, ys, hxs⟩
        exact ⟨y :: ys, .cons hx hxs⟩

/-- A text has an image when each of its tokens denotes something. -/
theorem exists_parse_iff (hdecode : decode.Exact) {text : String} :
    (∃ image, parse text decode = .ok image) ↔ ∀ t ∈ textTokens text.toList,
      ∃ ds, Stripped t ds ∧ ds.length % 2 = 0 ∧ ∀ c ∈ ds, c ∈ digitCharacters := by
  simp only [← exists_denotes_iff, ← exists_forall₂_iff, parse_eq_ok_iff hdecode]
  exact ⟨fun ⟨_, parts, h, _⟩ => ⟨parts, h⟩, fun ⟨parts, h⟩ => ⟨_, parts, h, rfl⟩⟩

/-- **The image of two texts** with a line break between them is that of the one and then
that of the other, and an error of either is an error of both. -/
theorem parse_newline (decode : Decoder) (a b : String) :
    parse (a ++ "\n" ++ b) decode = (do
      let x ← parse a decode
      let y ← parse b decode
      return x ++ y) := by
  have htext : (a ++ "\n" ++ b).toList = a.toList ++ '\n' :: b.toList := by
    rw [String.toList_append, String.toList_append, List.append_assoc]
    rfl
  rw [parse, parse, parse, htext, textTokens_newline, List.mapM_append]
  cases (textTokens a.toList).mapM fun cs => token cs decode with
  | error e => rfl
  | ok xs =>
      cases (textTokens b.toList).mapM fun cs => token cs decode with
      | error e => rfl
      | ok ys => exact congrArg Except.ok List.flatten_append

/-- **The reader accepts the texts of the grammar and no others**, with any exact decoder of
the digits.  The tokens of a text are those that it is laid out as; it has an image exactly
when each of them is an even number of digits behind its marks; the image is what the tokens
denote, in order.  So the image of two texts, one under the other, is the image of the first
and that of the second, and there is none when either has none. -/
theorem parse_follows_grammar (hdecode : decode.Exact) :
    (∀ text : String,
      (∀ tokens, Laid text.toList tokens ↔ textTokens text.toList = tokens) ∧
      ((∃ image, parse text decode = .ok image) ↔ ∀ t ∈ textTokens text.toList,
        ∃ ds, Stripped t ds ∧ ds.length % 2 = 0 ∧ ∀ c ∈ ds, c ∈ digitCharacters) ∧
      ∀ image, parse text decode = .ok image ↔
        ∃ parts, List.Forall₂ Denotes (textTokens text.toList) parts ∧ image = parts.flatten) ∧
    ∀ a b : String, parse (a ++ "\n" ++ b) decode = (do
      let x ← parse a decode
      let y ← parse b decode
      return x ++ y) :=
  ⟨fun _ => ⟨fun _ => laid_iff, exists_parse_iff hdecode, fun _ => parse_eq_ok_iff hdecode⟩,
    parse_newline decode⟩

end Image

/-- A byte behind two radix marks, and digits whose number is odd. -/
theorem parse_follows_grammar_digits :
    Decoder.Exact digits ∧ parse "\t0x0xfF# 0" digits = .ok [0xFF] ∧
      ¬ ∃ image, parse "123" digits = .ok image := by
  have hgrammar := (parse_follows_grammar digits_exact).1
  refine ⟨digits_exact, ?_, ?_⟩
  · refine ((hgrammar _).2.2 _).mpr ⟨[[0xFF]], .cons ?_ .nil, rfl⟩
    exact ⟨['f', 'F'], [0xFF], stripped_iff.mpr rfl, by decide, rfl⟩
  · intro himage
    obtain ⟨ds, hds, heven, -⟩ :=
      (hgrammar _).2.1.mp himage ['1', '2', '3'] (by decide)
    rw [← stripped_iff.mp hds] at heven
    exact absurd heven (by decide)

end HexText

end SandboxCpu
