import SandboxCpu.Console

/-!
# A stream of bytes and its lines

One console cuts its lines from a stream of bytes when they are asked for, and another
holds its lines beforehand.  When those lines are the stream, cut behind each line feed
(`Cut`), the two give the same lines for any limits, one call after another.

Both look at a line as a whole, whatever the limit.  So what is above the limit is lost
on either side, and never comes back as part of the next line.  The end of the input
shows in the same way too: where the stream has no more bytes and the queue no more
lines, both give the empty line, and they go on doing so.

A stream that ends with a line feed can be cut in two ways, as one may count an empty
line behind it or not.  That line would be read as an empty one, and so would the end of
the input.

## Main results

* `StreamConsole.Mirrors.reads`: the two give the same, for any limits in turn.
* `QueueConsole.reads_eq`: and this is a line for each call.
-/

namespace SandboxCpu

/-! ## The end of a line -/

/-- A line without a line feed has no end to be dropped. -/
theorem chomp_of_not_mem {line : List UInt8} (h : lineFeed ∉ line) : chomp line = line := by
  unfold chomp
  split
  · rename_i b rest hreverse
    have hmem : b ∈ line := List.mem_reverse.mp (hreverse ▸ List.mem_cons_self)
    have hne : b ≠ lineFeed := fun hb => h (hb ▸ hmem)
    rw [if_neg hne]
  · rename_i hreverse
    exact (List.reverse_eq_nil_iff.mp hreverse).symm

/-- A line feed is dropped with a carriage return before it. -/
theorem chomp_append_lineFeed (line : List UInt8) :
    chomp (line ++ [lineFeed]) =
      if line.getLast? = some carriageReturn then line.dropLast else line := by
  rcases List.eq_nil_or_concat line with rfl | ⟨body, b, rfl⟩
  · rfl
  · rw [List.concat_eq_append, List.getLast?_concat, List.dropLast_concat, chomp,
      List.reverse_append, List.reverse_append]
    show (if b = carriageReturn then body.reverse.reverse else (b :: body.reverse).reverse) = _
    rw [List.reverse_reverse, List.reverse_cons, List.reverse_reverse]
    simp only [Option.some.injEq]

/-- What is read of a line without a line feed. -/
theorem trimLine_of_not_mem {line : List UInt8} (h : lineFeed ∉ line) (limit : Nat) :
    trimLine line limit = line.take limit := by
  rw [trimLine, chomp_of_not_mem h]

theorem trimLine_nil (limit : Nat) : trimLine [] limit = [] := List.take_nil

/-! ## The next line of a stream -/

theorem splitLine_of_not_mem {line : List UInt8} (h : lineFeed ∉ line) :
    splitLine line = (line, []) := by
  induction line with
  | nil => rfl
  | cons b line ih =>
      rw [List.mem_cons, not_or] at h
      rw [splitLine, if_neg (Ne.symm h.1), ih h.2]

theorem splitLine_append_lineFeed {line : List UInt8} (h : lineFeed ∉ line)
    (bytes : List UInt8) :
    splitLine (line ++ lineFeed :: bytes) = (line ++ [lineFeed], bytes) := by
  induction line with
  | nil => rfl
  | cons b line ih =>
      rw [List.mem_cons, not_or] at h
      rw [List.cons_append, splitLine, if_neg (Ne.symm h.1), ih h.2]
      rfl

/-! ## Cutting -/

/-- The lines are the bytes, cut behind each line feed.  The last of them has none, and
may be left out if it is empty. -/
inductive Cut : List UInt8 → List (List UInt8) → Prop
  | nothing : Cut [] []
  | last {line : List UInt8} (hline : lineFeed ∉ line) : Cut line [line]
  | more {line bytes : List UInt8} {lines : List (List UInt8)} (hline : lineFeed ∉ line)
      (hcut : Cut bytes lines) :
      Cut (line ++ lineFeed :: bytes) ((line ++ [lineFeed]) :: lines)

/-- The lines with a byte in front of the first. -/
def consByte (b : UInt8) : List (List UInt8) → List (List UInt8)
  | [] => [[b]]
  | line :: lines => (b :: line) :: lines

/-- The lines of a stream.  Behind the last line feed there is one only if there is
something left. -/
def cutLines : List UInt8 → List (List UInt8)
  | [] => []
  | b :: bytes => if b = lineFeed then [b] :: cutLines bytes else consByte b (cutLines bytes)

namespace Cut

variable {bytes : List UInt8} {lines : List (List UInt8)}

theorem cons {b : UInt8} (h : Cut bytes lines) (hb : b ≠ lineFeed) :
    Cut (b :: bytes) (consByte b lines) := by
  have hcons : ∀ {line : List UInt8}, lineFeed ∉ line → lineFeed ∉ b :: line :=
    fun hline hmem => (List.mem_cons.mp hmem).elim hb.symm hline
  cases h with
  | nothing => exact .last (hcons List.not_mem_nil)
  | last hline => exact .last (hcons hline)
  | more hline hcut => exact .more (hcons hline) hcut

/-- Lines put together again are the stream. -/
theorem flatten_eq (h : Cut bytes lines) : lines.flatten = bytes := by
  induction h with
  | nothing => rfl
  | last hline => exact List.append_nil _
  | more hline hcut ih =>
      rw [List.flatten_cons, ih, List.append_assoc]
      rfl

/-- What a stream has next is its first line, and the others are the rest. -/
theorem next (h : Cut bytes lines) :
    (splitLine bytes).1 = lines.headD [] ∧ Cut (splitLine bytes).2 lines.tail := by
  cases h with
  | nothing => exact ⟨rfl, .nothing⟩
  | last hline =>
      rw [splitLine_of_not_mem hline]
      exact ⟨rfl, .nothing⟩
  | more hline hcut =>
      rw [splitLine_append_lineFeed hline]
      exact ⟨rfl, hcut⟩

end Cut

/-- Every stream has its lines. -/
theorem cut_cutLines (bytes : List UInt8) : Cut bytes (cutLines bytes) := by
  induction bytes with
  | nil => exact .nothing
  | cons b bytes ih =>
      rw [cutLines]
      by_cases hb : b = lineFeed
      · rw [if_pos hb, hb]
        exact .more List.not_mem_nil ih
      · rw [if_neg hb]
        exact ih.cons hb

/-! ## Reading line by line -/

/-- What a console gives for several limits in turn. -/
def Console.reads {κ : Type} [Console κ] (c : κ) :
    List Nat → List (Except ConsoleError (List UInt8))
  | [] => []
  | limit :: limits =>
    (Console.readLine c limit).1 :: Console.reads (Console.readLine c limit).2 limits

/-- The two consoles have the same input, the one as bytes and the other as lines, and
the same output. -/
structure StreamConsole.Mirrors (c : StreamConsole) (c' : QueueConsole) : Prop where
  input : Cut c.input c'.input
  output : c'.output = c.output

theorem QueueConsole.readLine_eq (c : QueueConsole) (limit : Nat) :
    c.readLine limit = (trimLine (c.input.headD []) limit, { c with input := c.input.tail }) := by
  rcases c with ⟨_ | ⟨line, lines⟩, output⟩
  · rw [List.headD_nil, trimLine_nil]
    rfl
  · rfl

namespace StreamConsole.Mirrors

variable {c : StreamConsole} {c' : QueueConsole}

theorem write (h : c.Mirrors c') (bytes : List UInt8) :
    (Console.write c' bytes).1 = (Console.write c bytes).1 ∧
      (Console.write c bytes).2.Mirrors (Console.write c' bytes).2 :=
  ⟨rfl, h.input, congrArg (fun output : Array UInt8 => output ++ bytes) h.output⟩

/-- They give the same line, and match again. -/
theorem readLine (h : c.Mirrors c') (limit : Nat) :
    (Console.readLine c' limit).1 = (Console.readLine c limit).1 ∧
      (Console.readLine c limit).2.Mirrors (Console.readLine c' limit).2 := by
  obtain ⟨hline, hrest⟩ := h.input.next
  show Except.ok (c'.readLine limit).1 = Except.ok (c.readLine limit).1 ∧
    (c.readLine limit).2.Mirrors (c'.readLine limit).2
  rw [c'.readLine_eq]
  exact ⟨congrArg (fun line => Except.ok (trimLine line limit)) hline.symm, hrest, h.output⟩

/-- So they do for any limits in turn. -/
theorem reads (limits : List Nat) : ∀ {c : StreamConsole} {c' : QueueConsole}, c.Mirrors c' →
    Console.reads c' limits = Console.reads c limits := by
  induction limits with
  | nil => exact fun _ => rfl
  | cons limit limits ih =>
      intro c c' h
      obtain ⟨hline, hrest⟩ := h.readLine limit
      rw [Console.reads, Console.reads, hline, ih hrest]

end StreamConsole.Mirrors

/-- The `i`-th call gives the `i`-th line, and an empty one behind the last. -/
theorem QueueConsole.reads_eq (limits : List Nat) : ∀ c : QueueConsole,
    Console.reads c limits =
      limits.mapIdx fun i limit => .ok (trimLine (c.input.getD i []) limit) := by
  induction limits with
  | nil => exact fun _ => rfl
  | cons limit limits ih =>
      intro c
      rw [Console.reads, List.mapIdx_cons]
      show .ok (c.readLine limit).1 :: Console.reads (c.readLine limit).2 limits = _
      rw [c.readLine_eq, ih]
      rcases c with ⟨_ | ⟨line, lines⟩, output⟩
      · rfl
      · rfl

end SandboxCpu
