import Mathlib.Data.List.Nodup
import SandboxCpu.Proofs.Debugger.History

/-!
# Breakpoints are a bounded set

A debugger keeps its breakpoints in a list, in the order in which they were added, and
beside the list the resume marker, which names the breakpoint at which execution last
paused.  Two things tie these together, and every operation has to restore them: no
address is in the list twice, and the marker is there only while the debugger is on and
only for an address in the list (`Sound`).

The first is what makes removing simple.  One occurrence of the address is taken out of
the list, and since there is no other, all that is left is all that differs from it.
The second is why removing any other breakpoint leaves the marker.

## Main result

* `breakpoints_form_bounded_set`: the invariant and the laws of the set, after any
  history.
-/

namespace SandboxCpu.Debugger

variable {d : Debugger} {addr : UInt32} {room : Nat}

/-! ## Adding and removing -/

/-- A breakpoint that is there already is accepted. -/
theorem addBreakpoint_of_mem (h : addr ∈ d.breakpoints) : d.addBreakpoint addr = .ok d := by
  rw [addBreakpoint, if_pos (List.contains_iff_mem.mpr h)]

/-- With room for it, a new one goes behind the others. -/
theorem addBreakpoint_of_room (h : addr ∉ d.breakpoints)
    (hroom : d.breakpoints.length < d.capacity) :
    d.addBreakpoint addr = .ok { d with breakpoints := d.breakpoints ++ [addr] } := by
  have hfull : ¬ d.capacity ≤ d.breakpoints.length := by omega
  rw [addBreakpoint, if_neg (mt List.contains_iff_mem.mp h), if_neg hfull]

/-- Without room it is refused. -/
theorem addBreakpoint_of_full (h : addr ∉ d.breakpoints)
    (hfull : d.capacity ≤ d.breakpoints.length) : d.addBreakpoint addr = .error ⟨d.capacity⟩ := by
  rw [addBreakpoint, if_neg (mt List.contains_iff_mem.mp h), if_pos hfull]

/-- The ways in which an added breakpoint can change a debugger. -/
theorem perform_addBreakpoint (d : Debugger) (addr : UInt32) :
    (d.perform (.addBreakpoint addr)).2 = d ∨
      addr ∉ d.breakpoints ∧ d.breakpoints.length < d.capacity ∧
        (d.perform (.addBreakpoint addr)).2 =
          { d with breakpoints := d.breakpoints ++ [addr] } := by
  simp only [perform]
  by_cases hmem : addr ∈ d.breakpoints
  · rw [addBreakpoint_of_mem hmem]
    exact .inl rfl
  · by_cases hroom : d.breakpoints.length < d.capacity
    · rw [addBreakpoint_of_room hmem hroom]
      exact .inr ⟨hmem, hroom, rfl⟩
    · rw [addBreakpoint_of_full hmem (by omega)]
      exact .inl rfl

/-! ## The invariant -/

/-- What ties list, room and marker together. -/
structure Sound (room : Nat) (d : Debugger) : Prop where
  capacity : d.capacity = room
  nodup : d.breakpoints.Nodup
  length_le : d.breakpoints.length ≤ room
  /-- The marker is at a breakpoint, and the debugger is on. -/
  resume : ∀ pc, d.resume = some pc → pc ∈ d.breakpoints ∧ d.enabled = true

namespace Sound

theorem fresh (room eventRoom : Nat) : Sound room (.fresh room eventRoom) where
  capacity := rfl
  nodup := List.nodup_nil
  length_le := Nat.zero_le _
  resume _ h := by cases h

/-- Only the breakpoints, their room, the marker and the switch matter. -/
theorem congr {d' : Debugger} (h : Sound room d) (hcapacity : d'.capacity = d.capacity)
    (hbreakpoints : d'.breakpoints = d.breakpoints)
    (hresume : ∀ pc, d'.resume = some pc → pc ∈ d.breakpoints ∧ d'.enabled = true) :
    Sound room d' where
  capacity := hcapacity.trans h.capacity
  nodup := hbreakpoints ▸ h.nodup
  length_le := hbreakpoints ▸ h.length_le
  resume := hbreakpoints ▸ hresume

theorem unmarked {d' : Debugger} (h : Sound room d) (hcapacity : d'.capacity = d.capacity)
    (hbreakpoints : d'.breakpoints = d.breakpoints) (hresume : d'.resume = none) :
    Sound room d' :=
  h.congr hcapacity hbreakpoints fun pc hpc => by
    rw [hresume] at hpc
    cases hpc

/-- Noting an event concerns none of it. -/
theorem record (h : Sound room d) (e : Event) : Sound room (d.record e) := by
  unfold Debugger.record
  split
  · exact h.congr rfl rfl h.resume
  · exact h

theorem addBreakpoint (h : Sound room d) (addr : UInt32) :
    Sound room (d.perform (.addBreakpoint addr)).2 := by
  rcases d.perform_addBreakpoint addr with hsame | ⟨hnew, hroom, hadded⟩
  · rw [hsame]
    exact h
  · rw [hadded]
    have hlength : d.breakpoints.length + 1 ≤ room := by
      rw [← h.capacity]
      omega
    exact {
      capacity := h.capacity
      nodup := List.nodup_append.mpr ⟨h.nodup, List.nodup_singleton addr, fun a ha b hb => by
        rw [List.mem_singleton.mp hb]
        rintro rfl
        exact hnew ha⟩
      length_le := by
        rw [List.length_append, List.length_singleton]
        exact hlength
      resume := fun pc hpc =>
        ⟨List.mem_append_left _ (h.resume pc hpc).1, (h.resume pc hpc).2⟩ }

/-- Removing takes out what is equal to the address, and the marker if it is there.
It says whether there was something to take out. -/
theorem removeBreakpoint_eq (h : Sound room d) (addr : UInt32) :
    d.removeBreakpoint addr = (decide (addr ∈ d.breakpoints),
      { d with
        breakpoints := d.breakpoints.filter (· != addr)
        resume := if d.resume = some addr then none else d.resume }) := by
  by_cases hmem : addr ∈ d.breakpoints
  · rw [Debugger.removeBreakpoint, if_pos (List.contains_iff_mem.mpr hmem), decide_eq_true hmem,
      h.nodup.erase_eq_filter]
  · have hfilter : d.breakpoints.filter (· != addr) = d.breakpoints :=
      List.filter_eq_self.mpr fun a ha => bne_iff_ne.mpr fun heq => hmem (heq ▸ ha)
    have hresume : d.resume ≠ some addr := fun heq => hmem (h.resume addr heq).1
    rw [Debugger.removeBreakpoint, if_neg (mt List.contains_iff_mem.mp hmem),
      decide_eq_false hmem, hfilter, if_neg hresume]

theorem removeBreakpoint (h : Sound room d) (addr : UInt32) :
    Sound room (d.removeBreakpoint addr).2 := by
  rw [h.removeBreakpoint_eq]
  refine ⟨h.capacity, h.nodup.filter _, Nat.le_trans (List.length_filter_le _ _) h.length_le, ?_⟩
  intro pc hpc
  by_cases hresume : d.resume = some addr
  · rw [if_pos hresume] at hpc
    cases hpc
  · rw [if_neg hresume] at hpc
    obtain ⟨hmem, henabled⟩ := h.resume pc hpc
    have hne : pc ≠ addr := fun heq => hresume (heq ▸ hpc)
    exact ⟨List.mem_filter.mpr ⟨hmem, bne_iff_ne.mpr hne⟩, henabled⟩

/-- The question whether to pause sets the marker at a breakpoint, or clears it. -/
theorem pauseBefore (h : Sound room d) (pc : UInt32) :
    Sound room (d.pauseBefore pc).2 := by
  unfold Debugger.pauseBefore
  split
  · exact h
  · rename_i henabled
    split
    · exact h.unmarked rfl rfl rfl
    · split
      · rename_i hcontains
        have hmem : pc ∈ d.breakpoints := List.contains_iff_mem.mp hcontains
        have hmarked : Sound room { d with resume := some pc } :=
          h.congr rfl rfl fun pc' hpc' => by
            cases hpc'
            exact ⟨hmem, by simpa using henabled⟩
        exact hmarked.record _
      · exact h.unmarked rfl rfl rfl

/-- Every operation restores the invariant. -/
theorem perform (h : Sound room d) (op : Operation) : Sound room (d.perform op).2 := by
  cases op with
  | setEnabled enabled =>
      cases enabled with
      | true => exact h.congr rfl rfl fun pc hpc => ⟨(h.resume pc hpc).1, rfl⟩
      | false => exact h.unmarked rfl rfl rfl
  | addBreakpoint addr => exact h.addBreakpoint addr
  | removeBreakpoint addr => exact h.removeBreakpoint addr
  | pauseBefore pc => exact h.pauseBefore pc
  | record e => exact h.record e
  | clearBreakpoints | reset =>
      exact ⟨h.capacity, List.nodup_nil, Nat.zero_le _, nofun⟩
  | setSingleStep | countInstruction | addCycles | takeEvents => exact h.congr rfl rfl h.resume

theorem after (room eventRoom : Nat) (history : List Operation) :
    Sound room ((Debugger.fresh room eventRoom).after history) :=
  after_of_perform (fun _ op h => h.perform op) history _ (fresh room eventRoom)

end Sound

/-! ## Operations that are not about breakpoints -/

/-- Whether an operation is there to change the breakpoints. -/
def Operation.edits : Operation → Bool
  | addBreakpoint _ | removeBreakpoint _ | clearBreakpoints | reset => true
  | _ => false

/-- All others leave them. -/
theorem breakpoints_perform (d : Debugger) {op : Operation} (h : op.edits = false) :
    (d.perform op).2.breakpoints = d.breakpoints := by
  cases op with
  | addBreakpoint | removeBreakpoint | clearBreakpoints | reset => cases h
  | pauseBefore pc =>
      obtain ⟨resume, events, hrest⟩ := d.rest_pauseBefore pc
      rw [hrest]
  | record e =>
      obtain ⟨events, hrest⟩ := d.rest_record e
      rw [perform, hrest]
  | setEnabled | setSingleStep | countInstruction | addCycles | takeEvents => rfl

/-! ## Main result -/

/-- **Breakpoints are a bounded set, in the order in which they were added.**  Take
a debugger with room for a number of breakpoints, which may be none, after any
history.  No address is in its list twice, and there are no more than there is room
for.  A resume marker is at a breakpoint, and the debugger is on.

Adding an address that is there changes nothing.  Another one is appended if there
is room for it, and otherwise refused, which changes nothing either.  Removing an
address says whether it was there, and leaves just the others in their order; it
clears the marker if that was there, and changes nothing else.  Clearing and a reset
leave no breakpoint, and no other operation changes the list. -/
theorem breakpoints_form_bounded_set (room eventRoom : Nat) (history : List Operation) :
    let d := (fresh room eventRoom).after history
    (d.breakpoints.Nodup ∧ d.breakpoints.length ≤ room ∧
      ∀ pc, d.resume = some pc → pc ∈ d.breakpoints ∧ d.enabled = true) ∧
    (∀ addr ∈ d.breakpoints, d.perform (.addBreakpoint addr) = (.done, d)) ∧
    (∀ addr ∉ d.breakpoints, d.breakpoints.length < room →
      d.perform (.addBreakpoint addr) =
        (.done, { d with breakpoints := d.breakpoints ++ [addr] })) ∧
    (∀ addr ∉ d.breakpoints, room ≤ d.breakpoints.length →
      d.perform (.addBreakpoint addr) = (.full ⟨room⟩, d)) ∧
    (∀ addr, d.perform (.removeBreakpoint addr) =
      (.truth (decide (addr ∈ d.breakpoints)),
        { d with
          breakpoints := d.breakpoints.filter (· != addr)
          resume := if d.resume = some addr then none else d.resume })) ∧
    (d.perform .clearBreakpoints).2.breakpoints = [] ∧
    (d.perform .reset).2.breakpoints = [] ∧
    ∀ op : Operation, op.edits = false → (d.perform op).2.breakpoints = d.breakpoints := by
  intro d
  have h : Sound room d := .after room eventRoom history
  refine ⟨⟨h.nodup, h.length_le, h.resume⟩, fun addr hmem => ?_, fun addr hnew hroom => ?_,
    fun addr hnew hfull => ?_, fun addr => ?_, rfl, rfl, fun op hop => d.breakpoints_perform hop⟩
  · rw [perform, addBreakpoint_of_mem hmem]
  · rw [← h.capacity] at hroom
    rw [perform, addBreakpoint_of_room hnew hroom]
  · rw [← h.capacity] at hfull ⊢
    rw [perform, addBreakpoint_of_full hnew hfull]
  · rw [perform, h.removeBreakpoint_eq]

end SandboxCpu.Debugger
