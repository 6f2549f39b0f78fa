import Mathlib.Data.List.Nodup
import SchemaLift.Members

/-!
# Looking up members

A lookup finds the first entry under a key. Where keys are distinct it finds every entry, so that
lookup and membership say the same.
-/

namespace SchemaLift.Members

variable {κ α β : Type}

@[simp]
theorem keys_nil : keys ([] : List (κ × α)) = [] :=
  rfl

@[simp]
theorem keys_cons (name : κ) (value : α) (rest : List (κ × α)) :
    keys ((name, value) :: rest) = name :: keys rest :=
  rfl

@[simp]
theorem keys_append (front back : List (κ × α)) :
    keys (front ++ back) = keys front ++ keys back := by
  simp [keys]

instance [DecidableEq κ] (members : List (κ × α)) : Decidable (Distinct members) :=
  inferInstanceAs (Decidable (keys members).Nodup)

theorem mem_keys_iff {key : κ} {members : List (κ × α)} :
    key ∈ keys members ↔ ∃ value, (key, value) ∈ members := by
  simp [keys]

theorem mem_keys_of_mem {key : κ} {value : α} {members : List (κ × α)}
    (present : (key, value) ∈ members) : key ∈ keys members :=
  mem_keys_iff.mpr ⟨value, present⟩

/-! ## Lookup and membership -/

theorem mem_of_get?_eq_some [DecidableEq κ] {key : κ} {value : α} {members : List (κ × α)}
    (found : get? key members = some value) : (key, value) ∈ members := by
  induction members with
  | nil => simp at found
  | cons member rest ih =>
      rcases member with ⟨name, old⟩
      rw [get?_cons] at found
      split at found
      · next same =>
          cases found
          subst same
          exact List.mem_cons_self
      · exact List.mem_cons_of_mem _ (ih found)

theorem get?_eq_none_iff [DecidableEq κ] {key : κ} {members : List (κ × α)} :
    get? key members = none ↔ key ∉ keys members := by
  induction members with
  | nil => simp
  | cons member rest ih =>
      rcases member with ⟨name, value⟩
      by_cases same : name = key
      · simp [get?_cons, same]
      · simp [get?_cons, same, ih, Ne.symm same]

theorem has_iff_mem_keys {key : String} {members : Members α} :
    has key members = true ↔ key ∈ keys members := by
  rw [has_eq_isSome]
  cases found : get? key members with
  | none => simpa using get?_eq_none_iff.mp found
  | some value => simpa using mem_keys_of_mem (mem_of_get?_eq_some found)

theorem exists_get?_eq_some_of_mem_keys [DecidableEq κ] {key : κ} {members : List (κ × α)}
    (present : key ∈ keys members) : ∃ value, get? key members = some value := by
  cases found : get? key members with
  | none => exact absurd present (get?_eq_none_iff.mp found)
  | some value => exact ⟨value, rfl⟩

/-- Where no key stands twice, every entry is the one that a lookup finds. -/
theorem Distinct.get?_eq_some [DecidableEq κ] {members : List (κ × α)}
    (distinct : Distinct members) {key : κ} {value : α} (present : (key, value) ∈ members) :
    get? key members = some value := by
  induction members with
  | nil => simp at present
  | cons member rest ih =>
      rcases member with ⟨name, first⟩
      have parts : name ∉ keys rest ∧ (keys rest).Nodup := by
        simpa [Distinct] using distinct
      rcases List.mem_cons.mp present with here | later
      · cases here
        simp [get?_cons]
      · have differs : name ≠ key := by
          rintro rfl
          exact parts.1 (mem_keys_of_mem later)
        rw [get?_cons, if_neg differs]
        exact ih parts.2 later

theorem get?_append [DecidableEq κ] (key : κ) (front back : List (κ × α)) :
    get? key (front ++ back) = (get? key front).or (get? key back) := by
  induction front with
  | nil => simp
  | cons member rest ih =>
      rcases member with ⟨name, value⟩
      rw [List.cons_append, get?_cons, get?_cons, ih]
      split <;> rfl

theorem get?_append_of_not_mem [DecidableEq κ] {key : κ} {front : List (κ × α)}
    (back : List (κ × α))
    (absent : key ∉ keys front) : get? key (front ++ back) = get? key back := by
  rw [get?_append, get?_eq_none_iff.mpr absent, Option.none_or]

/-! ## Changing one entry -/

/-- Only the first entry under a key is changed. -/
theorem update_append_cons {key : String} {front : Members α} (absent : key ∉ keys front)
    (old value : α) (back : Members α) :
    update key value (front ++ (key, old) :: back) = front ++ (key, value) :: back := by
  induction front with
  | nil => simp [update]
  | cons member rest ih =>
      rcases member with ⟨name, first⟩
      have parts : key ≠ name ∧ key ∉ keys rest := by
        simpa using absent
      simp [update, Ne.symm parts.1, ih parts.2]

theorem set_of_not_mem {key : String} {members : Members α} (absent : key ∉ keys members)
    (value : α) : set key value members = members ++ [(key, value)] := by
  induction members with
  | nil => rfl
  | cons member rest ih =>
      rcases member with ⟨name, old⟩
      have parts : key ≠ name ∧ key ∉ keys rest := by
        simpa using absent
      simp [set, Ne.symm parts.1, ih parts.2]

theorem get?_update_of_ne {key other : String} (differs : other ≠ key) (value : α)
    (members : Members α) : get? other (update key value members) = get? other members := by
  induction members with
  | nil => rfl
  | cons member rest ih =>
      rcases member with ⟨name, old⟩
      rw [update]
      split
      · next same =>
          subst same
          simp [get?_cons, Ne.symm differs]
      · rw [get?_cons, get?_cons, ih]

theorem mem_of_mem_update {key name : String} {value old : α} {members : Members α}
    (present : (name, old) ∈ update key value members) :
    (name, old) ∈ members ∨ name = key ∧ old = value := by
  induction members with
  | nil => contradiction
  | cons member rest ih =>
      rcases member with ⟨other, first⟩
      rw [update] at present
      split at present
      · next same =>
          rcases List.mem_cons.mp present with here | later
          · cases here
            exact Or.inr ⟨same, rfl⟩
          · exact Or.inl (List.mem_cons_of_mem _ later)
      · rcases List.mem_cons.mp present with here | later
        · exact Or.inl (here ▸ List.mem_cons_self)
        · exact (ih later).imp_left (List.mem_cons_of_mem _)

theorem get?_update_self {key : String} {members : Members α} (present : key ∈ keys members)
    (value : α) : get? key (update key value members) = some value := by
  induction members with
  | nil => simp at present
  | cons member rest ih =>
      rcases member with ⟨name, old⟩
      rw [update]
      split
      · next same => simp [get?_cons, same]
      · next differs =>
          have later : key ∈ keys rest := by
            simpa [Ne.symm differs] using present
          rw [get?_cons, if_neg differs]
          exact ih later

theorem get?_update_eq_some {key other : String} {value found : α} {members : Members α}
    (lookup : get? other (update key value members) = some found) :
    other = key ∧ found = value ∨ other ≠ key ∧ get? other members = some found := by
  by_cases same : other = key
  · subst same
    have present := mem_keys_of_mem (mem_of_get?_eq_some lookup)
    rw [keys_update] at present
    rw [get?_update_self present] at lookup
    exact Or.inl ⟨rfl, (Option.some.inj lookup).symm⟩
  · rw [get?_update_of_ne same] at lookup
    exact Or.inr ⟨same, lookup⟩

/-- An entry that a lookup finds stands behind entries of other keys. -/
theorem exists_split_of_get?_eq_some {key : String} {value : α} {members : Members α}
    (found : get? key members = some value) :
    ∃ front back, members = front ++ (key, value) :: back ∧ key ∉ keys front := by
  induction members with
  | nil => simp at found
  | cons member rest ih =>
      rcases member with ⟨name, old⟩
      rw [get?_cons] at found
      split at found
      · next same =>
          cases found
          subst same
          exact ⟨[], rest, rfl, by simp⟩
      · next differs =>
          rcases ih found with ⟨front, back, rfl, absent⟩
          exact ⟨(name, old) :: front, back, rfl, by simp [absent, Ne.symm differs]⟩

/-- What is made of members, when one of them is replaced: what was made of it goes, and what is made
of the other comes. -/
theorem length_flatMap_set {members : Members α} {key : String} {value : α}
    (found : get? key members = some value) (other : α) (each : String × α → List β) :
    ((set key other members).flatMap each).length + (each (key, value)).length =
      (members.flatMap each).length + (each (key, other)).length := by
  induction members with
  | nil => cases found
  | cons member rest ih =>
      rcases member with ⟨name, first⟩
      rw [get?_cons] at found
      rw [set]
      split at found
      · next same =>
          cases found
          subst same
          simp only [if_true, List.flatMap_cons, List.length_append]
          omega
      · next differs =>
          have later := ih found
          rw [if_neg differs]
          simp only [List.flatMap_cons, List.length_append]
          omega

theorem Distinct.set {members : Members α} (distinct : Distinct members) (key : String)
    (value : α) : Distinct (set key value members) := by
  unfold Distinct
  rw [keys_set]
  split
  · exact distinct
  · next absent =>
      rw [has_iff_mem_keys] at absent
      exact List.nodup_append.mpr
        ⟨distinct, List.nodup_singleton key, by
          rintro name present other single rfl
          rw [List.mem_singleton] at single
          exact absent (single ▸ present)⟩

/-! ## Other values -/

section Values

variable {α β : Type}

@[simp]
theorem keys_mapValues (apply : α → β) (members : Members α) :
    keys (mapValues apply members) = keys members := by
  simp [keys, mapValues]

theorem distinct_mapValues {apply : α → β} {members : Members α} (distinct : Distinct members) :
    Distinct (mapValues apply members) := by
  rw [Distinct, keys_mapValues]
  exact distinct

@[simp]
theorem get?_mapValues (key : String) (apply : α → β) (members : Members α) :
    get? key (mapValues apply members) = (get? key members).map apply := by
  induction members with
  | nil => rfl
  | cons member rest ih =>
      rcases member with ⟨name, value⟩
      change get? key ((name, apply value) :: mapValues apply rest) = _
      rw [get?_cons, get?_cons, ih]
      split <;> rfl

end Values

/-! ## Dropping one entry -/

theorem mem_erase_iff {key name : String} {value : α} {members : Members α} :
    (name, value) ∈ erase key members ↔ (name, value) ∈ members ∧ name ≠ key := by
  simp [erase]

theorem not_mem_keys_erase (key : String) (members : Members α) :
    key ∉ keys (erase key members) := by
  simp [mem_keys_iff, mem_erase_iff]

theorem Distinct.erase {members : Members α} (distinct : Distinct members) (key : String) :
    Distinct (erase key members) :=
  distinct.sublist (List.filter_sublist.map Prod.fst)

theorem erase_cons (key name : String) (value : α) (rest : Members α) :
    erase key ((name, value) :: rest) =
      if name = key then erase key rest else (name, value) :: erase key rest := by
  by_cases dropped : name = key <;> simp [erase, dropped]

theorem erase_set (key : String) (value : α) (members : Members α) :
    erase key (set key value members) = erase key members := by
  induction members with
  | nil => simp [set, erase]
  | cons entry rest ih =>
      rcases entry with ⟨name, old⟩
      rw [set]
      split
      · next same => rw [erase_cons, erase_cons, if_pos same, if_pos same]
      · next differs => rw [erase_cons, erase_cons, if_neg differs, if_neg differs, ih]

theorem get?_erase (key other : String) (members : Members α) :
    get? other (erase key members) = if other = key then none else get? other members := by
  induction members with
  | nil => simp [erase]
  | cons member rest ih =>
      rcases member with ⟨name, value⟩
      rw [erase_cons]
      by_cases dropped : name = key
      · subst dropped
        by_cases asked : name = other
        · subst asked
          simpa using ih
        · simp [ih, get?_cons, asked, Ne.symm asked]
      · by_cases asked : name = other
        · subst asked
          simp [get?_cons, dropped]
        · simp [get?_cons, dropped, asked, ih]

theorem erase_of_not_mem {key : String} {members : Members α} (absent : key ∉ keys members) :
    erase key members = members := by
  apply List.filter_eq_self.mpr
  intro member present
  rcases member with ⟨name, value⟩
  have differs : name ≠ key := by
    rintro rfl
    exact absent (mem_keys_of_mem present)
  simpa using differs

end SchemaLift.Members
