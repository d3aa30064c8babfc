import SandboxCpu.Toml.Table

/-!
# What a dotted key is given

A dotted key leads from table to table, and an assignment puts a value at its end.  The tables on
the way are looked into or made (`assign_cons`), and a table that is made is an empty one that was
looked into, so that nothing has to be said twice.

What comes of it is seen by looking a key up (`at?`): the value is found there, where nothing was
before; no key beside it leads anywhere else than it did; and a second value is refused.

## Main result

* `at?_of_assign`: what a key is given, it has, once and for all.
-/

namespace SandboxCpu.Toml.Members

variable {members members' : Members} {key other : String} {value : Value}

/-! ## Looking up -/

theorem find?_add (h : members.find? key = none) (value : Value) :
    (members.add key value).find? key = some value := by
  rw [find?] at h
  rw [find?, add, List.lookup_append, h, List.lookup_cons, BEq.rfl]
  rfl

/-- A further member is none of the others. -/
theorem find?_add_of_ne (h : other ≠ key) (value : Value) :
    (members.add key value).find? other = members.find? other := by
  have hne : (other == key) = false := beq_false_of_ne h
  rw [find?, add, List.lookup_append, List.lookup_cons, hne, List.lookup_nil, Option.or_none, find?]

/-- Replacing the value of a key that is there gives it the new value. -/
theorem find?_replace (h : members.find? key ≠ none) (value : Value) :
    (members.replace key value).find? key = some value := by
  induction members with
  | nil => exact absurd rfl h
  | cons m members ih =>
      obtain ⟨k, v⟩ := m
      by_cases hk : k = key
      · subst hk
        rw [replace, List.map_cons, if_pos BEq.rfl, find?, List.lookup_cons, BEq.rfl]
      · have hne : (k == key) = false := beq_false_of_ne hk
        have hne' : (key == k) = false := beq_false_of_ne (Ne.symm hk)
        rw [find?, List.lookup_cons, hne'] at h
        rw [replace, List.map_cons, hne, if_neg Bool.false_ne_true, find?, List.lookup_cons, hne']
        exact ih h

/-- It does nothing to the other keys. -/
theorem find?_replace_of_ne (h : other ≠ key) (value : Value) :
    (members.replace key value).find? other = members.find? other := by
  induction members with
  | nil => rfl
  | cons m members ih =>
      obtain ⟨k, v⟩ := m
      have htail : List.lookup other (replace members key value) = List.lookup other members := ih
      by_cases hk : k = key
      · subst hk
        have hne : (other == k) = false := beq_false_of_ne h
        rw [replace, List.map_cons, if_pos BEq.rfl, find?, List.lookup_cons, hne, find?,
          List.lookup_cons, hne]
        exact htail
      · have hne : (k == key) = false := beq_false_of_ne hk
        rw [replace, List.map_cons, hne, if_neg Bool.false_ne_true, find?, List.lookup_cons, find?,
          List.lookup_cons]
        cases other == k with
        | true => rfl
        | false => exact htail

/-- The table to which a key leads, or the latest of several tables.  A key that leads to no table
leads to an empty one. -/
def inside (members : Members) (key : String) : Members :=
  match members.find? key with
  | some (.table _ inner) => inner
  | some (.tables (latest :: _)) => latest
  | _ => []

theorem inside_congr (h : members'.find? key = members.find? key) :
    members'.inside key = members.inside key := by
  rw [inside, inside, h]

/-- The value to which a dotted key leads. -/
def at? : List String → Members → Option Value
  | [], _ => none
  | [key], members => members.find? key
  | key :: next :: path, members => at? (next :: path) (members.inside key)

/-- Where a key leads depends on what its first name leads to. -/
theorem at?_congr (h : members'.find? key = members.find? key) (path : List String) :
    at? (key :: path) members' = at? (key :: path) members := by
  cases path with
  | nil => exact h
  | cons next path => rw [at?, at?, inside_congr h]

/-! ## Assigning -/

theorem assign_singleton (h : assign value [key] members = some members') :
    members.find? key = none ∧ members' = members.add key value := by
  rw [assign] at h
  split at h
  · exact ⟨‹_›, (Option.some.inj h).symm⟩
  · cases h

/-- An assignment to a longer key is one inside the table of its first name, and leaves the other
names alone. -/
theorem assign_cons {next : String} {path : List String}
    (h : assign value (key :: next :: path) members = some members') :
    assign value (next :: path) (members.inside key) = some (members'.inside key) ∧
      ∀ other, other ≠ key → members'.find? other = members.find? other := by
  unfold assign at h
  split at h
  · rename_i hnone
    obtain ⟨inner, hinner, heq⟩ := Option.bind_eq_some_iff.mp h
    obtain rfl := Option.some.inj heq
    have hinside : members.inside key = [] := by rw [inside, hnone]
    refine ⟨?_, fun other hne => find?_add_of_ne hne _⟩
    rw [hinside, hinner, inside, find?_add hnone]
  · rename_i origin table hfind
    have hinside : members.inside key = table := by rw [inside, hfind]
    split at h
    · obtain ⟨inner, hinner, heq⟩ := Option.bind_eq_some_iff.mp h
      obtain rfl := Option.some.inj heq
      refine ⟨?_, fun other hne => find?_replace_of_ne hne _⟩
      rw [hinside, hinner, inside, find?_replace (by rw [hfind]; exact nofun)]
    · cases h
  · rename_i latest earlier hfind
    have hinside : members.inside key = latest := by rw [inside, hfind]
    split at h
    · obtain ⟨inner, hinner, heq⟩ := Option.bind_eq_some_iff.mp h
      obtain rfl := Option.some.inj heq
      refine ⟨?_, fun other hne => find?_replace_of_ne hne _⟩
      rw [hinside, hinner, inside, find?_replace (by rw [hfind]; exact nofun)]
    · cases h
  · cases h

/-- What is refused inside of a table is refused outside. -/
theorem assign_cons_eq_none {next : String} {path : List String}
    (h : assign value (next :: path) (members.inside key) = none) :
    assign value (key :: next :: path) members = none := by
  cases hassign : assign value (key :: next :: path) members with
  | none => rfl
  | some members' =>
      rw [(assign_cons hassign).1] at h
      cases h

/-! ## Main result -/

/-- **What a dotted key is given, it has.**  There was nothing to which the key led before; now it
leads to the value, and to no other any more.  Keys that neither begin with it nor are what it
begins with lead where they did. -/
theorem at?_of_assign {path : List String} (h : assign value path members = some members') :
    at? path members = none ∧ at? path members' = some value ∧
      (∀ value', assign value' path members' = none) ∧
      ∀ others, ¬ path <+: others → ¬ others <+: path →
        at? others members' = at? others members := by
  induction path generalizing members members' with
  | nil => cases h
  | cons key path ih =>
      cases path with
      | nil =>
          obtain ⟨hnone, rfl⟩ := assign_singleton h
          have hfind := find?_add hnone value
          refine ⟨hnone, hfind, fun value' => ?_, fun others hlonger hshorter => ?_⟩
          · rw [assign, hfind]
          · cases others with
            | nil => exact absurd List.nil_prefix hshorter
            | cons other others =>
                have hne : other ≠ key := by
                  rintro rfl
                  exact hlonger ⟨others, rfl⟩
                exact at?_congr (find?_add_of_ne hne value) others
      | cons next path =>
          obtain ⟨hinside, hothers⟩ := assign_cons h
          obtain ⟨hbefore, hafter, honce, hframe⟩ := ih hinside
          refine ⟨hbefore, hafter, fun value' => assign_cons_eq_none (honce value'),
            fun others hlonger hshorter => ?_⟩
          cases others with
          | nil => exact absurd List.nil_prefix hshorter
          | cons other others =>
              by_cases hkey : other = key
              · subst hkey
                rw [List.cons_prefix_cons, and_iff_right rfl] at hlonger hshorter
                cases others with
                | nil => exact absurd List.nil_prefix hshorter
                | cons other' others => exact hframe (other' :: others) hlonger hshorter
              · exact at?_congr (hothers other hkey) others

end SandboxCpu.Toml.Members
