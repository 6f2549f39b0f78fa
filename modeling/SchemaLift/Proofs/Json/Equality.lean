import SchemaLift.Json.Basic
import SchemaLift.Proofs.Lists
import SchemaLift.Proofs.Members.Matching

/-!
# Equality of JSON values

Equality that ignores the order of members is an equivalence on values in which no object has a key
twice. Transitivity holds for all values; the other two laws need the keys to be distinct at every
depth (`Json.DistinctKeys`), since a lookup sees only the first of several entries.

The laws are proved by induction on the values inside a value (`Json.induction`).
-/

namespace SchemaLift

namespace Number

theorem same_symm {left right : Number} (equal : left.same right = true) :
    right.same left = true := by
  cases left with
  | integer value =>
      cases right <;> simp_all [same]
  | binary64 value =>
      cases right with
      | integer => simp [same] at equal
      | binary64 other =>
          simp only [same, Binary64.same, Bool.or_eq_true, Bool.and_eq_true, beq_iff_eq] at equal ⊢
          exact equal.imp And.symm Eq.symm

theorem same_trans {left middle right : Number} (first : left.same middle = true)
    (second : middle.same right = true) : left.same right = true := by
  cases left <;> cases middle <;> cases right <;>
    simp_all [same, Binary64.same]
  rcases first with ⟨leftZero, middleZero⟩ | rfl
  · rcases second with ⟨_, rightZero⟩ | rfl
    · exact Or.inl ⟨leftZero, rightZero⟩
    · exact Or.inl ⟨leftZero, middleZero⟩
  · exact second

end Number

namespace Json

/-! ## Values inside a value -/

/-- The members of an object; other values have none. -/
def members : Json → Members Json
  | .object members => members
  | _ => []

/-- The values directly inside a value. -/
def parts : Json → List Json
  | .array elements => elements
  | .object members => members.map Prod.snd
  | _ => []

theorem sizeOf_lt_of_mem_parts {value part : Json} (inside : part ∈ value.parts) :
    sizeOf part < sizeOf value := by
  cases value with
  | array elements =>
      have present : part ∈ elements := inside
      have smaller := List.sizeOf_lt_of_mem present
      simp only [Json.array.sizeOf_spec]
      omega
  | object members =>
      rcases List.mem_map.mp inside with ⟨⟨key, found⟩, present, rfl⟩
      have smaller := List.sizeOf_lt_of_mem present
      simp only [Prod.mk.sizeOf_spec] at smaller
      simp only [Json.object.sizeOf_spec]
      omega
  | null => simp [parts] at inside
  | bool => simp [parts] at inside
  | number => simp [parts] at inside
  | string => simp [parts] at inside

/-- What holds of a value if it holds of the values inside it holds of every value. -/
theorem induction {motive : Json → Prop}
    (step : ∀ value, (∀ part ∈ value.parts, motive part) → motive value) (value : Json) :
    motive value :=
  step value fun part inside =>
    have := sizeOf_lt_of_mem_parts inside
    induction step part
termination_by sizeOf value

/-- No object has a key twice, at any depth. -/
inductive DistinctKeys : Json → Prop
  | intro {value : Json} (own : Members.Distinct value.members)
      (below : ∀ part ∈ value.parts, DistinctKeys part) : DistinctKeys value

/-- No key stands twice among the members or at any depth of their values. -/
def DistinctMap (members : Members Json) : Prop :=
  Members.Distinct members ∧ ∀ key value, (key, value) ∈ members → value.DistinctKeys

theorem distinctMap_iff_distinctKeys (members : Members Json) :
    DistinctMap members ↔ (Json.object members).DistinctKeys := by
  constructor
  · rintro ⟨own, below⟩
    refine DistinctKeys.intro own fun part inside => ?_
    rcases List.mem_map.mp inside with ⟨⟨key, value⟩, present, rfl⟩
    exact below key value present
  · rintro ⟨own, below⟩
    exact ⟨own, fun key value present => below value (List.mem_map_of_mem present)⟩

/-! ## Equality piece by piece -/

theorem sameElements_iff_forall₂ (left right : List Json) :
    sameElements left right = true ↔
      List.Forall₂ (fun value other => value.same other = true) left right := by
  induction left generalizing right with
  | nil => cases right <;> simp [sameElements]
  | cons value rest ih =>
      cases right with
      | nil => simp [sameElements]
      | cons other others => simp [sameElements, ih]

theorem sameMembers_iff (left right : Members Json) :
    sameMembers left right = true ↔
      ∀ key value, (key, value) ∈ left →
        ∃ other, Members.get? key right = some other ∧ value.same other = true := by
  induction left with
  | nil => simp [sameMembers]
  | cons member rest ih =>
      rcases member with ⟨name, value⟩
      simp only [sameMembers, Bool.and_eq_true, ih, List.mem_cons, Prod.mk.injEq]
      constructor
      · rintro ⟨here, later⟩ key found (⟨rfl, rfl⟩ | present)
        · split at here
          · next other lookup => exact ⟨other, lookup, here⟩
          · contradiction
        · exact later key found present
      · intro all
        rcases all name value (Or.inl ⟨rfl, rfl⟩) with ⟨other, lookup, equal⟩
        exact ⟨by simp [lookup, equal], fun key found present => all key found (Or.inr present)⟩

theorem sameMap_iff_matches (left right : Members Json) :
    sameMap left right = true ↔
      Members.Matches (fun value other => value.same other = true) left right := by
  simp [sameMap, Members.Matches, sameMembers_iff]

theorem same_object_iff (left right : Members Json) :
    (Json.object left).same (.object right) = true ↔ sameMap left right = true := by
  simp [same, sameMap]

/-! ## The laws of an equivalence -/

theorem same_refl {value : Json} (distinct : value.DistinctKeys) : value.same value = true := by
  induction value using induction with
  | step value ih =>
      rcases distinct with ⟨own, below⟩
      cases value with
      | array elements =>
          rw [same, sameElements_iff_forall₂]
          exact List.forall₂_same.mpr fun part inside => ih part inside (below part inside)
      | object members =>
          rw [same_object_iff, sameMap_iff_matches]
          apply Members.Matches.refl own
          intro key found present
          have inside : found ∈ (Json.object members).parts := List.mem_map_of_mem present
          exact ih found inside (below found inside)
      | null => rfl
      | bool => simp [same]
      | number => simp [same]
      | string => simp [same]

theorem same_symm {left right : Json} (distinct : left.DistinctKeys)
    (equal : left.same right = true) : right.same left = true := by
  induction left using induction generalizing right with
  | step left ih =>
      rcases distinct with ⟨own, below⟩
      cases left with
      | array elements =>
          cases right <;> simp only [same, Bool.false_eq_true] at equal
          rw [sameElements_iff_forall₂] at equal
          rw [same, sameElements_iff_forall₂]
          exact forall₂_flip_of_mem equal fun value inside other fits =>
            ih value inside (below value inside) fits
      | object members =>
          cases right <;> simp only [same, Bool.false_eq_true] at equal
          next others =>
          have matching := (sameMap_iff_matches members others).mp equal
          rw [same_object_iff, sameMap_iff_matches]
          apply matching.symm own
          intro key value other present fits
          have inside : value ∈ (Json.object members).parts := List.mem_map_of_mem present
          exact ih value inside (below value inside) fits
      | null => cases right <;> simp_all [same]
      | bool => cases right <;> simp_all [same]
      | number =>
          cases right <;> simp only [same, Bool.false_eq_true] at equal
          exact Number.same_symm equal
      | string => cases right <;> simp_all [same]

theorem same_trans {left middle right : Json} (first : left.same middle = true)
    (second : middle.same right = true) : left.same right = true := by
  induction left using induction generalizing middle right with
  | step left ih =>
      cases left with
      | array elements =>
          cases middle <;> simp only [same, Bool.false_eq_true] at first
          cases right <;> simp only [same, Bool.false_eq_true] at second
          rw [sameElements_iff_forall₂] at first second
          rw [same, sameElements_iff_forall₂]
          exact forall₂_trans_of_mem first second fun value inside _ _ fits lastFits =>
            ih value inside fits lastFits
      | object members =>
          cases middle <;> simp only [same, Bool.false_eq_true] at first
          cases right <;> simp only [same, Bool.false_eq_true] at second
          next others lasts =>
          have firstMatching := (sameMap_iff_matches members others).mp first
          have secondMatching := (sameMap_iff_matches others lasts).mp second
          rw [same_object_iff, sameMap_iff_matches]
          apply firstMatching.trans secondMatching
          intro key value _ _ present fits lastFits
          exact ih value (List.mem_map_of_mem present) fits lastFits
      | null => cases middle <;> cases right <;> simp_all [same]
      | bool => cases middle <;> cases right <;> simp_all [same]
      | number =>
          cases middle <;> simp only [same, Bool.false_eq_true] at first
          cases right <;> simp only [same, Bool.false_eq_true] at second
          exact Number.same_trans first second
      | string => cases middle <;> cases right <;> simp_all [same]

/-! ## Maps of values -/

theorem sameMap_refl {members : Members Json} (distinct : DistinctMap members) :
    sameMap members members = true := by
  rw [distinctMap_iff_distinctKeys] at distinct
  exact (same_object_iff members members).mp (same_refl distinct)

theorem sameMap_symm {left right : Members Json} (distinct : DistinctMap left)
    (equal : sameMap left right = true) : sameMap right left = true := by
  rw [distinctMap_iff_distinctKeys] at distinct
  rw [← same_object_iff] at equal ⊢
  exact same_symm distinct equal

theorem sameMap_trans {left middle right : Members Json} (first : sameMap left middle = true)
    (second : sameMap middle right = true) : sameMap left right = true := by
  rw [← same_object_iff] at first second ⊢
  exact same_trans first second

end Json

end SchemaLift
