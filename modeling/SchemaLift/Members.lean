/-!
# Ordered members

The members of an object, in the order in which they are shown. A key stands at most once
(`Members.Distinct`); the operations below keep it so. Setting a key that is present leaves its
place and changes its value, setting a new one appends it.

Two lists of members describe the same map when they have the same keys with related values,
whatever the order (`Members.same`).
-/

namespace SchemaLift

/-- Members in display order. -/
abbrev Members (α : Type) := List (String × α)

namespace Members

variable {κ α β : Type}

/-- The keys, in order. -/
def keys (members : List (κ × α)) : List κ :=
  members.map Prod.fst

/-- No key stands twice. -/
def Distinct (members : List (κ × α)) : Prop :=
  (keys members).Nodup

/-- Whether the key is present. -/
def has (key : String) (members : Members α) : Bool :=
  members.any (·.1 == key)

/-- The value under a key. -/
def get? [DecidableEq κ] (key : κ) : List (κ × α) → Option α
  | [] => none
  | (name, value) :: rest => if name = key then some value else get? key rest

/-- Set a key: in place when it is present, at the end otherwise. -/
def set (key : String) (value : α) : Members α → Members α
  | [] => [(key, value)]
  | (name, old) :: rest =>
    if name = key then (name, value) :: rest else (name, old) :: set key value rest

/-- Change the value under a key, if there is one. -/
def update (key : String) (value : α) : Members α → Members α
  | [] => []
  | (name, old) :: rest =>
    if name = key then (name, value) :: rest else (name, old) :: update key value rest

/-- Drop a key; the others keep their order. -/
def erase (key : String) (members : Members α) : Members α :=
  members.filter (·.1 ≠ key)

/-- Set several members, one after the other. -/
def extend (members additions : Members α) : Members α :=
  additions.foldl (fun whole addition => set addition.1 addition.2 whole) members

/-- Read a list of entries as members: a repeated key keeps its first place and its last value. -/
def ofEntries (entries : List (String × α)) : Members α :=
  extend [] entries

/-- Apply a function to every value. -/
def mapValues (apply : α → β) (members : Members α) : Members β :=
  members.map fun member => (member.1, apply member.2)

/-- Take a member out, whatever its value. -/
def take (key : String) (members : Members α) : Option α × Members α :=
  (get? key members, erase key members)

/-- Take a member out if its value can be read as wanted; otherwise leave it where it is. -/
def takeAs (read : α → Option β) (key : String) (members : Members α) : Option β × Members α :=
  match (get? key members).bind read with
  | some value => (some value, erase key members)
  | none => (none, members)

/-- Move a member to the end. -/
def moveToEnd (key : String) (members : Members α) : Members α :=
  match get? key members with
  | some value => erase key members ++ [(key, value)]
  | none => members

/-- Same keys, related values, in any order. -/
def same (related : α → α → Bool) (left right : Members α) : Bool :=
  left.length == right.length &&
    left.all fun member =>
      match get? member.1 right with
      | some value => related member.2 value
      | none => false

/-! ## Members in key order -/

/-- Set a key in members that are kept in increasing key order. -/
def setSorted (key : String) (value : α) : Members α → Members α
  | [] => [(key, value)]
  | (name, old) :: rest =>
    if name = key then (name, value) :: rest
    else if key < name then (key, value) :: (name, old) :: rest
    else (name, old) :: setSorted key value rest

/-- Add entries to sorted members; a later entry replaces an earlier one of the same key. -/
def extendSorted (members : Members α) (entries : List (String × α)) : Members α :=
  entries.foldl (fun whole entry => setSorted entry.1 entry.2 whole) members

/-- Read a list of entries as members in key order; the last value of a key counts. -/
def sorted (entries : List (String × α)) : Members α :=
  extendSorted [] entries

/-! ## Laws -/

@[simp] theorem get?_nil [DecidableEq κ] (key : κ) : get? key ([] : List (κ × α)) = none := rfl

theorem get?_cons [DecidableEq κ] (key name : κ) (value : α) (rest : List (κ × α)) :
    get? key ((name, value) :: rest) = if name = key then some value else get? key rest := rfl

/-- Reading back what was set. -/
theorem get?_set (key other : String) (value : α) (members : Members α) :
    get? other (set key value members) =
      if key = other then some value else get? other members := by
  induction members with
  | nil => simp [set, get?]
  | cons member rest ih =>
    obtain ⟨name, old⟩ := member
    by_cases found : name = key
    · subst found
      by_cases asked : name = other <;> simp [set, get?, asked]
    · by_cases asked : name = other
      · subst asked
        simp [set, get?, found, Ne.symm found]
      · simp [set, get?, found, asked, ih]

/-- A key is present exactly when it has a value. -/
theorem has_eq_isSome (key : String) (members : Members α) :
    has key members = (get? key members).isSome := by
  induction members with
  | nil => rfl
  | cons member rest ih =>
    obtain ⟨name, value⟩ := member
    by_cases found : name = key
    · simp [has, get?, found]
    · have step : has key ((name, value) :: rest) = has key rest := by simp [has, found]
      rw [step, ih, get?_cons, if_neg found]

/-- Setting a key that is present keeps the keys, setting a new one appends it. -/
theorem keys_set (key : String) (value : α) (members : Members α) :
    keys (set key value members) =
      if has key members then keys members else keys members ++ [key] := by
  induction members with
  | nil => simp [set, keys, has]
  | cons member rest ih =>
    obtain ⟨name, old⟩ := member
    by_cases found : name = key
    · simp [set, keys, has, found]
    · simp only [keys, has] at ih
      by_cases present : rest.any (·.1 == key) <;>
        simp_all [set, keys, has]

/-- Updating never changes the keys. -/
@[simp] theorem keys_update (key : String) (value : α) (members : Members α) :
    keys (update key value members) = keys members := by
  induction members with
  | nil => rfl
  | cons member rest ih =>
    obtain ⟨name, old⟩ := member
    by_cases found : name = key
    · simp [update, keys, found]
    · simpa [update, keys, found] using ih

end Members

end SchemaLift
