import Mathlib.Data.List.Perm.Subperm
import SchemaLift.Flatten.Registry
import SchemaLift.Proofs.Members.Lookup

/-!
# Names in the registry

A name that the registry gives out is free. There is one candidate more than there are schemas, the
base name with one number after the other, so that not all of them can be taken.
-/

namespace SchemaLift.Registry

theorem contains_iff {registry : Registry} {name : String} :
    registry.contains name = true ↔ name ∈ Members.keys registry.schemas :=
  Members.has_iff_mem_keys

/-! ## Free names -/

theorem numbered_injective (base : String) : Function.Injective (numbered base) := by
  intro left right equal
  have texts : left.repr = right.repr := by
    simpa [numbered] using equal
  have digits : Nat.toDigits 10 left = Nat.toDigits 10 right := by
    rw [← Nat.toList_repr, ← Nat.toList_repr, texts]
  have read : ∀ number, Nat.ofDigitChars 10 (Nat.toDigits 10 number) 0 = number :=
    fun number => Nat.ofDigitChars_toDigits (by decide) (by decide)
  rw [← read left, ← read right, digits]

theorem numbered_ne (base : String) (number : Nat) : numbered base number ≠ base := by
  intro equal
  have lengths := congrArg String.length equal
  have separator : "_".length = 1 := rfl
  simp [numbered] at lengths
  omega

/-- A base name that is taken with its first numbers takes up a schema for each of these names. -/
theorem lt_length_of_taken {taken : List String} {base : String} {count : Nat}
    (used : base ∈ taken)
    (below : ∀ number, 0 < number → number ≤ count → numbered base number ∈ taken) :
    count < taken.length := by
  have all : base :: (List.range' 1 count).map (numbered base) ⊆ taken := by
    intro name present
    rcases List.mem_cons.mp present with rfl | later
    · exact used
    · rcases List.mem_map.mp later with ⟨number, inside, rfl⟩
      have bounds := List.mem_range'_1.mp inside
      exact below number (by omega) (by omega)
  have distinct : (base :: (List.range' 1 count).map (numbered base)).Nodup := by
    refine List.nodup_cons.mpr ⟨?_, List.Nodup.map (numbered_injective base) List.nodup_range'⟩
    intro present
    rcases List.mem_map.mp present with ⟨number, _, equal⟩
    exact numbered_ne base number equal
  have fits := (List.subperm_of_subset distinct all).length_le
  simp only [List.length_cons, List.length_map, List.length_range'] at fits
  omega

/-- Numbers are left when the base name is taken. -/
theorem exists_free_number {registry : Registry} {base : String}
    (taken : registry.contains base = true) :
    ∃ number ∈ List.range' 1 registry.schemas.length,
      registry.contains (numbered base number) = false := by
  by_contra none
  push Not at none
  have count : registry.schemas.length < (Members.keys registry.schemas).length := by
    refine lt_length_of_taken (contains_iff.mp taken) fun number positive least => ?_
    have inside : number ∈ List.range' 1 registry.schemas.length :=
      List.mem_range'_1.mpr ⟨positive, by omega⟩
    exact contains_iff.mp (by simpa using none number inside)
  simp [Members.keys] at count

/-- The name that is nearest to a base name among those that are not taken: the base name itself,
and if that is taken, its numbered name with the least number. -/
inductive Nearest (taken : List String) (base : String) : String → Prop
  | base (free : base ∉ taken) : Nearest taken base base
  | numbered {number : Nat} (used : base ∈ taken) (positive : 0 < number)
      (free : numbered base number ∉ taken)
      (least : ∀ smaller, 0 < smaller → smaller < number → numbered base smaller ∈ taken) :
      Nearest taken base (numbered base number)

theorem Nearest.free {taken : List String} {base name : String}
    (nearest : Nearest taken base name) : name ∉ taken := by
  cases nearest with
  | base free => exact free
  | numbered _ _ free => exact free

theorem nearest_uniqueName (registry : Registry) (base : String) :
    Nearest (Members.keys registry.schemas) base (registry.uniqueName base) := by
  rw [uniqueName]
  split
  · next taken =>
      split
      · next number found =>
          obtain ⟨free, inside, least⟩ := List.find?_range'_eq_some.mp found
          refine Nearest.numbered (contains_iff.mp taken) (List.mem_range'_1.mp inside).1 ?_ ?_
          · simpa [← contains_iff] using free
          · intro smaller positive below
            exact contains_iff.mp (by simpa using least smaller positive below)
      · next none =>
          rcases exists_free_number taken with ⟨number, inside, free⟩
          have used := List.find?_eq_none.mp none number inside
          simp [free] at used
  · next free => exact Nearest.base (by rwa [contains_iff] at free)

/-- The name that is given out is free. -/
theorem uniqueName_not_mem (registry : Registry) (base : String) :
    registry.uniqueName base ∉ Members.keys registry.schemas :=
  (registry.nearest_uniqueName base).free

/-! ## Known shapes -/

/-- What can be shared was registered under the same base with an equal shape, or was there from the
beginning with the base as its name. -/
theorem reusable?_eq_some {registry : Registry} {base name : String} {shape : Schema}
    (found : registry.reusable? base shape = some name) :
    (∃ known ∈ registry.generated, known.base = base ∧ known.shape.same shape = true ∧
        known.name = name) ∨
      (name = base ∧ ∃ original, Members.get? base registry.initial = some original ∧
        original.same shape = true) := by
  rw [reusable?] at found
  split at found
  · next known first =>
      obtain ⟨same, equal⟩ : known.base = base ∧ (known.shape == shape) = true := by
        simpa using List.find?_some first
      exact Or.inl ⟨known, List.mem_of_find?_eq_some first, same, equal, Option.some.inj found⟩
  · split at found
    · next original lookup =>
        split at found
        · next equal => exact Or.inr ⟨(Option.some.inj found).symm, original, lookup, equal⟩
        · contradiction
    · contradiction

end SchemaLift.Registry
