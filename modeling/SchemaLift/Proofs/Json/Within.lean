import SchemaLift.Proofs.Json.Equality

/-!
# All values inside a value

A value and everything inside it, at any depth (`Json.within`), and how deep its arrays and objects
nest (`Json.depth`). What is asked of a value itself can so be asked of all of it at once.
-/

namespace SchemaLift.Json

mutual

/-- The value and all values inside it. -/
def within : Json → List Json
  | .array elements => .array elements :: withinElements elements
  | .object members => .object members :: withinMembers members
  | .null => [.null]
  | .bool value => [.bool value]
  | .number value => [.number value]
  | .string value => [.string value]

/-- All values in the elements of an array. -/
def withinElements : List Json → List Json
  | [] => []
  | element :: rest => element.within ++ withinElements rest

/-- All values in the members of an object. -/
def withinMembers : List (String × Json) → List Json
  | [] => []
  | (_, value) :: rest => value.within ++ withinMembers rest

end

theorem withinElements_eq (elements : List Json) :
    withinElements elements = elements.flatMap within := by
  induction elements with
  | nil => rfl
  | cons element rest ih => rw [withinElements, ih, List.flatMap_cons]

theorem withinMembers_eq (members : Members Json) :
    withinMembers members = (members.map Prod.snd).flatMap within := by
  induction members with
  | nil => rfl
  | cons member rest ih =>
      rcases member with ⟨key, value⟩
      rw [withinMembers, ih, List.map_cons, List.flatMap_cons]

theorem within_eq (value : Json) : value.within = value :: value.parts.flatMap within := by
  cases value with
  | array elements => rw [within, withinElements_eq, parts]
  | object members => rw [within, withinMembers_eq, parts]
  | _ => rfl

/-- What holds of all values in a value is asked of the value itself and of those in its parts. -/
theorem forall_within_iff {own : Json → Prop} {value : Json} :
    (∀ inner ∈ value.within, own inner) ↔
      own value ∧ ∀ part ∈ value.parts, ∀ inner ∈ part.within, own inner := by
  simp only [within_eq value, List.forall_mem_cons, List.mem_flatMap, forall_exists_index, and_imp]
  exact and_congr_right fun _ => ⟨fun all part inside inner deeper => all inner part inside deeper,
    fun all inner part inside deeper => all part inside inner deeper⟩

/-- No object has a key twice if that holds of all objects inside. -/
theorem distinctKeys_iff {value : Json} :
    value.DistinctKeys ↔ ∀ inner ∈ value.within, Members.Distinct inner.members := by
  induction value using induction with
  | step value ih =>
      rw [forall_within_iff]
      constructor
      · rintro ⟨own, below⟩
        exact ⟨own, fun part inside => (ih part inside).mp (below part inside)⟩
      · rintro ⟨own, below⟩
        exact .intro own fun part inside => (ih part inside).mpr (below part inside)

mutual

/-- How deep arrays and objects nest. -/
def depth : Json → Nat
  | .array elements => elementsDepth elements + 1
  | .object members => membersDepth members + 1
  | .null | .bool _ | .number _ | .string _ => 0

/-- How deep the elements of an array nest. -/
def elementsDepth : List Json → Nat
  | [] => 0
  | element :: rest => max element.depth (elementsDepth rest)

/-- How deep the members of an object nest. -/
def membersDepth : List (String × Json) → Nat
  | [] => 0
  | (_, value) :: rest => max value.depth (membersDepth rest)

end

theorem elementsDepth_le_iff {elements : List Json} {limit : Nat} :
    elementsDepth elements ≤ limit ↔ ∀ element ∈ elements, element.depth ≤ limit := by
  induction elements with
  | nil => simp [elementsDepth]
  | cons element rest ih => rw [elementsDepth, Nat.max_le, ih, List.forall_mem_cons]

theorem membersDepth_le_iff {members : Members Json} {limit : Nat} :
    membersDepth members ≤ limit ↔ ∀ value ∈ members.map Prod.snd, value.depth ≤ limit := by
  induction members with
  | nil => simp [membersDepth]
  | cons member rest ih =>
      rcases member with ⟨key, value⟩
      rw [membersDepth, Nat.max_le, ih, List.map_cons, List.forall_mem_cons]

theorem depth_le_succ_iff {value : Json} {limit : Nat} :
    value.depth ≤ limit + 1 ↔ ∀ part ∈ value.parts, part.depth ≤ limit := by
  cases value with
  | array elements => rw [depth, Nat.add_le_add_iff_right, elementsDepth_le_iff, parts]
  | object members => rw [depth, Nat.add_le_add_iff_right, membersDepth_le_iff, parts]
  | _ => simp [depth, parts]

end SchemaLift.Json
