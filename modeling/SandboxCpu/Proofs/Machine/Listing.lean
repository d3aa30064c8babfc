import SandboxCpu.Proofs.Machine.Trace

/-!
# Listing, memory and trace

Three readings of an image meet here.  A listing cuts it into words and shows
them with their addresses.  A load puts its bytes into memory, from which words
are fetched.  And the trace shows the words that were fetched, with the addresses
at which they were.

That the first two agree is a matter of byte order and of what is left over at
the end of an image (`Memory.getElem?_words_of_load`).  The third agrees with them
because a guest cannot write where it executes: after a load into the first layout
pages for writing and pages for executing are still apart, so that whatever the
guest stores, the words it executes are those of the load (`word_of_mem_executions`).

## Main results

* `listing_matches_trace`: the lines of a listing are those of memory after the
  load, and those of the trace wherever the guest executes a word of the image.
-/

namespace SandboxCpu

/-! ## The words of an image -/

namespace LittleEndian

/-- What makes no word is shorter than one. -/
private theorem length_lt_four {bytes : List UInt8}
    (h : ∀ b₀ b₁ b₂ b₃ rest, bytes = b₀ :: b₁ :: b₂ :: b₃ :: rest → False) :
    bytes.length < 4 := by
  rcases bytes with _ | ⟨b₀, _ | ⟨b₁, _ | ⟨b₂, _ | ⟨b₃, rest⟩⟩⟩⟩
  case cons.cons.cons.cons => exact (h b₀ b₁ b₂ b₃ rest rfl).elim
  all_goals simp

theorem length_words (bytes : List UInt8) : (words bytes).length = bytes.length / 4 := by
  induction bytes using words.induct with
  | case1 b₀ b₁ b₂ b₃ rest ih =>
      rw [words, List.length_cons, ih]
      simp only [List.length_cons]
      omega
  | case2 bytes hshort =>
      rw [words, Nat.div_eq_of_lt (length_lt_four hshort)]
      · rfl
      · exact hshort

/-- A word of an image is made of the four bytes that stand at its place. -/
theorem getElem?_words (bytes : List UInt8) :
    ∀ i, 4 * i + 4 ≤ bytes.length →
      (words bytes)[i]? = some (word (bytes.getD (4 * i) 0) (bytes.getD (4 * i + 1) 0)
        (bytes.getD (4 * i + 2) 0) (bytes.getD (4 * i + 3) 0)) := by
  induction bytes using words.induct with
  | case1 b₀ b₁ b₂ b₃ rest ih =>
      intro i hi
      cases i with
      | zero => rfl
      | succ i =>
          have hrest : 4 * i + 4 ≤ rest.length := by
            simp only [List.length_cons] at hi
            omega
          exact ih i hrest
  | case2 bytes hshort =>
      intro i hi
      have hlength := length_lt_four hshort
      omega

end LittleEndian

/-! ## Memory after a load -/

namespace Memory

variable {m m' : Memory} {addr : UInt32} {image : List UInt8}

/-- The bytes of an image are in memory one after the other. -/
theorem byteAt_load (h : m.load addr image = .ok m') {j : Nat} (hj : j < image.length) :
    m'.byteAt (addr.toNat + j) = image.getD j 0 := by
  obtain ⟨hallows, rfl⟩ := load_eq_ok_iff.mp h
  rw [byteAt_setBytes _ _ _ _ (allows_iff.mp hallows).1, if_pos (Nat.le_add_right _ _),
    Nat.add_sub_cancel_left, List.getD_eq_getElem?_getD, List.getElem?_eq_getElem hj]
  rfl

/-- So its words are those that memory holds. -/
theorem getElem?_words_of_load (h : m.load addr image = .ok m') {i : Nat}
    (hi : 4 * i + 4 ≤ image.length) :
    (LittleEndian.words image)[i]? = some (m'.wordAt (addr.toNat + 4 * i)) := by
  rw [LittleEndian.getElem?_words image i hi, wordAt, Nat.add_assoc, Nat.add_assoc, Nat.add_assoc,
    byteAt_load h (by omega), byteAt_load h (by omega), byteAt_load h (by omega),
    byteAt_load h (by omega)]

/-- A load leaves the page table alone. -/
theorem separated_load (h : m.load addr image = .ok m') (hsep : m.Separated) : m'.Separated := by
  obtain ⟨-, rfl⟩ := load_eq_ok_iff.mp h
  intro page p hp
  refine hsep page p ?_
  rw [← hp]
  exact (protection_congr (fun a => protectionAt_setBytes m _ a image) page).symm

end Memory

namespace Machine

variable {κ : Type} [Console κ] {m : Machine κ}

/-! ## The instructions of a run -/

/-- What the first `n` calls of `step` execute. -/
def executions (n : Nat) (m : Machine κ) : List TraceEntry :=
  (List.range n).flatMap fun k => (m.stepped k).executing.toList

theorem executions_succ (n : Nat) (m : Machine κ) :
    executions (n + 1) m = executions n m ++ (m.stepped n).executing.toList := by
  rw [executions, List.range_succ, List.flatMap_append, List.flatMap_singleton]
  rfl

/-- Tracer and counter stay in line with a past over any number of steps. -/
theorem Traces.stepped {room : Nat} {past : List TraceEntry} (h : Traces room past m) (n : Nat) :
    Traces room (past ++ executions n m) (m.stepped n) := by
  induction n with
  | zero =>
      show Traces room (past ++ []) m
      rw [List.append_nil]
      exact h
  | succ n ih =>
      rw [stepped_succ, executions_succ, ← List.append_assoc]
      exact ih.step

omit [Console κ] in
/-- What is in memory makes no difference to them. -/
theorem Traces.withMemory {room : Nat} {past : List TraceEntry} (h : Traces room past m)
    (memory : Memory) : Traces room past { m with memory := memory } :=
  ⟨h.capacity, h.recent, h.count⟩

/-- With separated pages the guest executes nothing but words that were there
before it ran. -/
theorem word_of_mem_executions (hsep : m.memory.Separated) {n : Nat} {e : TraceEntry}
    (he : e ∈ executions n m) : e.word = m.memory.wordAt e.pc.toNat := by
  obtain ⟨k, -, hk⟩ := List.mem_flatMap.mp he
  obtain ⟨hpc, hfetch⟩ := fetch_of_executing (Option.mem_toList.mp hk)
  rw [hpc]
  exact ((Confined.stepped k m).memory.fetched hsep (readWord_of_fetch hfetch)).1

/-! ## Main result -/

/-- **The listing of a program is what is executed.**  Let a program be loaded
into a new machine.  Then its listing has a line for each whole word of it, which
is the line of the word that memory holds at that place after the load, with that
address.

And after any number of steps, whatever the guest has written, the trace is made
of the lines of the last instructions executed, and each of these that was
executed at a word of the program has the line of that word in the listing. -/
theorem listing_matches_trace {config : Config} {console : κ} {addr : UInt32}
    {image : List UInt8} (h : (new config console).loadProgram addr image = .ok m) (n : Nat) :
    let listing := Listing.ofImage image addr
    let recent := (executions n m).rtake config.traceListSize
    (listing.length = image.length / 4 ∧
      ∀ i < image.length / 4, listing[i]? =
        some (Listing.line (m.memory.wordAt (addr.toNat + 4 * i)) (addr + UInt32.ofNat (4 * i)))) ∧
    Tracer.log (m.stepped n).tracer = Listing.text recent ∧
    ∀ e ∈ recent, ∀ i, e.pc.toNat = addr.toNat + 4 * i → 4 * i + 4 ≤ image.length →
      listing[i]? = some (Listing.line e.word e.pc) := by
  intro listing recent
  obtain ⟨hload, hm⟩ := loadProgram_eq_ok_iff.mp h
  have hfits := (Memory.allows_iff.mp (Memory.load_eq_ok_iff.mp hload).1).1
  have htraces : Traces config.traceListSize [] m := by
    rw [hm]
    exact (Traces.new config console).withMemory m.memory
  have hline : ∀ i, 4 * i + 4 ≤ image.length → listing[i]? =
      some (Listing.line (m.memory.wordAt (addr.toNat + 4 * i))
        (addr + UInt32.ofNat (4 * i))) := by
    intro i hi
    show (Listing.ofImage image addr)[i]? = _
    rw [Listing.ofImage, List.getElem?_mapIdx, Memory.getElem?_words_of_load hload hi]
    rfl
  have hstepped := htraces.stepped n
  rw [List.nil_append] at hstepped
  refine ⟨⟨?_, fun i hi => hline i (by omega)⟩, hstepped.log, fun e he i hpc hi => ?_⟩
  · show (Listing.ofImage image addr).length = _
    rw [Listing.ofImage, List.length_mapIdx, LittleEndian.length_words]
  · have hexecuted : e ∈ executions n m := List.mem_of_mem_drop he
    -- The word was fetched in the middle of the run, but it is that of the load.
    have hsep := Memory.separated_load hload Memory.separated_initial
    have hword := word_of_mem_executions hsep hexecuted
    have haddr : e.pc = addr + UInt32.ofNat (4 * i) := by
      rw [← UInt32.toNat_inj, hpc, UInt32.toNat_add, UInt32.toNat_ofNat']
      omega
    rw [hline i hi, hword, hpc, haddr]

/-- An image of one word, which pushes a register, and two bytes more. -/
def pushImage : List UInt8 := [0x00, 0x00, 0x00, 0x36, 0x01, 0x02]

/-- A machine that has loaded it and is about to execute it. -/
def pushing : Machine QueueConsole :=
  { Machine.new { entryPc := 0x10 } {} with memory := Memory.initial.setBytes 0x10 pushImage }

/-- The guest writes to its stack, and the one line of the listing is that of the
trace. -/
theorem listing_matches_trace_pushing :
    (Machine.new { entryPc := 0x10 } {} : Machine QueueConsole).loadProgram 0x10 pushImage =
      .ok pushing ∧
    executions 1 pushing = [⟨0x10, 0x36000000⟩] ∧
    Tracer.log (pushing.stepped 1).tracer = Listing.text [⟨0x10, 0x36000000⟩] ∧
    (Listing.ofImage pushImage 0x10).length = 1 ∧
    (Listing.ofImage pushImage 0x10)[0]? = some (Listing.line 0x36000000 0x10) := by
  have hload : (Machine.new { entryPc := 0x10 } {} : Machine QueueConsole).loadProgram 0x10
      pushImage = .ok pushing :=
    loadProgram_eq_ok_iff.mpr ⟨Memory.load_eq_ok_iff.mpr ⟨by decide +kernel, rfl⟩, rfl⟩
  have hexecuted : executions 1 pushing = [⟨0x10, 0x36000000⟩] := by decide +kernel
  obtain ⟨⟨hlength, -⟩, hlog, hlines⟩ := listing_matches_trace hload 1
  rw [hexecuted] at hlog hlines
  exact ⟨hload, hexecuted, hlog, hlength, hlines _ (List.mem_singleton_self _) 0 rfl (by decide)⟩

end Machine

end SandboxCpu
