import SchemaLift.Proofs.Json.Maps
import SchemaLift.Proofs.Members.Taking

/-!
# Values up to the order of members

A value is reordered (`Json.Reordered`) when the members of its objects are put in another order, at
any depth; no object in it has a key twice. What one of two such values is, the other is too, and
their parts are reordered (`Json.Alike`). Lookups among reordered members find reordered values
(`Json.ReorderedMap.cases_get?`), and a test that reordered values pass alike keeps reordered
members (`Json.ReorderedMap.filter`).
-/

namespace SchemaLift

/-! ## Optional values -/

section Optional

variable {α β γ : Type} {related : α → β → Prop} {left : Option α} {right : Option β}

theorem bind_eq_of_optionRel (all : Option.Rel related left right) {read : α → Option γ}
    {readOther : β → Option γ}
    (agree : ∀ value other, related value other → read value = readOther other) :
    left.bind read = right.bind readOther := by
  cases all with
  | some fits => exact agree _ _ fits
  | none => rfl

theorem isSome_eq_of_optionRel (all : Option.Rel related left right) :
    left.isSome = right.isSome := by
  cases all <;> rfl

end Optional

/-! ## Members that match -/

namespace Members.Matches

variable {κ α β : Type} [DecidableEq κ] {related : α → β → Prop} {left : List (κ × α)}
  {right : List (κ × β)}

/-- Lookups on both sides fail, or find related values. -/
theorem lookup (matching : Matches related left right) (distinct : Distinct left) (key : κ) :
    Option.Rel (fun value other => (key, value) ∈ left ∧ related value other) (get? key left)
      (get? key right) := by
  cases found : get? key left with
  | none =>
      rw [matching.get?_eq_none distinct found]
      exact Option.Rel.none
  | some value =>
      rcases matching.get?_eq_some found with ⟨other, there, fits⟩
      rw [there]
      exact Option.Rel.some ⟨mem_of_get?_eq_some found, fits⟩

section Filter

variable (matching : Matches related left right) (distinct : Distinct left)
  {keep : κ × α → Bool} {keepOther : κ × β → Bool}
  (fair : ∀ key value other, related value other → keep (key, value) = keepOther (key, other))

include matching distinct fair

theorem exists_get?_filter {key : κ} {value : α} (present : (key, value) ∈ left.filter keep) :
    ∃ other, get? key (right.filter keepOther) = some other ∧ related value other := by
  rcases List.mem_filter.mp present with ⟨inside, kept⟩
  rcases matching.2 key value inside with ⟨other, found, fits⟩
  refine ⟨other, ?_, fits⟩
  rw [(matching.distinct distinct).get?_filter, found]
  exact Option.filter_some_pos (fair key value other fits ▸ kept)

theorem length_filter_le : (left.filter keep).length ≤ (right.filter keepOther).length := by
  have subset : keys (left.filter keep) ⊆ keys (right.filter keepOther) := by
    intro key present
    rcases Members.mem_keys_iff.mp present with ⟨value, kept⟩
    rcases exists_get?_filter matching distinct fair kept with ⟨other, found, _⟩
    exact mem_keys_of_mem (mem_of_get?_eq_some found)
  have fewer := (List.subperm_of_subset (distinct.filter keep) subset).length_le
  simpa [keys] using fewer

/-- Members still match when the same of them are dropped on both sides. -/
theorem filter : Matches related (left.filter keep) (right.filter keepOther) := by
  have back : Matches (fun other value => related value other) right left :=
    matching.symm distinct fun _ _ _ _ fits => fits
  constructor
  · apply Nat.le_antisymm (length_filter_le matching distinct fair)
    apply length_filter_le back (matching.distinct distinct)
    exact fun key other value fits => (fair key value other fits).symm
  · exact fun key value present => exists_get?_filter matching distinct fair present

end Filter

theorem moveToEnd {left : Members α} {right : Members β} (matching : Matches related left right)
    (distinct : Distinct left) (key : String) :
    Matches related (moveToEnd key left) (moveToEnd key right) := by
  have others := matching.distinct distinct
  have length : ∀ {δ : Type} {members : Members δ}, Distinct members →
      (Members.moveToEnd key members).length = members.length := by
    intro δ members distinct
    have kept := List.length_eq_length_filter_add (l := members)
      fun member => decide (member.1 ≠ key)
    simp [moveToEnd_eq distinct, kept]
  constructor
  · rw [length distinct, length others, matching.1]
  · intro name value present
    rcases matching.2 name value ((mem_moveToEnd distinct).mp present) with ⟨other, found, fits⟩
    exact ⟨other, by rw [get?_moveToEnd others, found], fits⟩

end Members.Matches

namespace Json

open Members (Distinct Matches get? has)

/-! ## Reordered values -/

/-- Equal values up to the order of members, where no object has a key twice. -/
structure Reordered (value other : Json) : Prop where
  distinct : value.DistinctKeys
  same : value.same other = true

/-- Members in any order, with reordered values. -/
structure ReorderedMap (members others : Members Json) : Prop where
  distinct : Distinct members
  matching : Matches Reordered members others

/-- Values of one kind with reordered parts. -/
inductive Alike : Json → Json → Prop
  | null : Alike .null .null
  | bool (value : Bool) : Alike (.bool value) (.bool value)
  | number {value other : Number} (same : value.same other = true) :
      Alike (.number value) (.number other)
  | string (value : String) : Alike (.string value) (.string value)
  | array {elements others : List Json} (each : List.Forall₂ Reordered elements others) :
      Alike (.array elements) (.array others)
  | object {members others : Members Json} (inside : ReorderedMap members others) :
      Alike (.object members) (.object others)

namespace Reordered

variable {value other : Json}

theorem object {members others : Members Json}
    (reordered : Reordered (.object members) (.object others)) : ReorderedMap members others := by
  rcases (distinctMap_iff_distinctKeys members).mpr reordered.distinct with ⟨distinct, each⟩
  have same := (same_object_iff members others).mp reordered.same
  constructor
  · exact distinct
  · apply ((sameMap_iff_matches members others).mp same).mono
    exact fun key value other present fits => ⟨each key value present, fits⟩

theorem alike (reordered : Reordered value other) : Alike value other := by
  have same := reordered.same
  cases value <;> cases other <;> simp only [Json.same, Bool.false_eq_true, beq_iff_eq] at same
  case null.null => exact Alike.null
  case bool.bool =>
    subst same
    exact Alike.bool _
  case number.number => exact Alike.number same
  case string.string =>
    subst same
    exact Alike.string _
  case array.array elements others =>
    rw [sameElements_iff_forall₂] at same
    exact Alike.array (forall₂_imp_of_mem same fun element present other fits =>
      ⟨reordered.distinct.part present, fits⟩)
  case object.object => exact Alike.object reordered.object

theorem string?_eq (reordered : Reordered value other) : value.string? = other.string? := by
  cases reordered.alike <;> rfl

theorem bool?_eq (reordered : Reordered value other) : value.bool? = other.bool? := by
  cases reordered.alike <;> rfl

theorem strings?_eq (reordered : Reordered value other) : value.strings? = other.strings? := by
  cases reordered.alike with
  | array each =>
      rw [strings?, strings?]
      clear reordered
      induction each with
      | nil => rfl
      | cons fits _ ih => rw [List.mapM_cons, List.mapM_cons, fits.string?_eq, ih]
  | _ => rfl

end Reordered

/-! ## Reordered members -/

namespace ReorderedMap

variable {members others : Members Json} (reordered : ReorderedMap members others)

include reordered

theorem distinct_right : Distinct others :=
  reordered.matching.distinct reordered.distinct

theorem sameMap : sameMap members others = true :=
  (sameMap_iff_matches members others).mpr
    (reordered.matching.mono fun _ _ _ _ fits => fits.same)

/-- What holds if both lookups fail, and if they find reordered values, holds of a lookup among
reordered members. -/
@[elab_as_elim]
theorem cases_get? (key : String) {motive : Option Json → Option Json → Prop}
    (missing : motive none none)
    (found : ∀ value other, (key, value) ∈ members → Reordered value other →
      motive (some value) (some other)) :
    motive (Members.get? key members) (Members.get? key others) := by
  have all := reordered.matching.lookup reordered.distinct key
  generalize Members.get? key members = left, Members.get? key others = right at all
  cases all with
  | none => exact missing
  | some fits => exact found _ _ fits.1 fits.2

theorem get? (key : String) : Option.Rel Reordered (get? key members) (get? key others) :=
  reordered.cases_get? key Option.Rel.none fun _ _ _ fits => Option.Rel.some fits

/-- What is read of a value whatever the order of its members is read in both. -/
theorem bind_eq {α : Type} {read : Json → Option α} (key : String)
    (agree : ∀ value other, Reordered value other → read value = read other) :
    (Members.get? key members).bind read = (Members.get? key others).bind read :=
  bind_eq_of_optionRel (reordered.get? key) agree

theorem string?_eq (key : String) :
    (Members.get? key members).bind string? = (Members.get? key others).bind string? :=
  reordered.bind_eq key fun _ _ fits => fits.string?_eq

theorem bool?_eq (key : String) :
    (Members.get? key members).bind bool? = (Members.get? key others).bind bool? :=
  reordered.bind_eq key fun _ _ fits => fits.bool?_eq

theorem strings?_eq (key : String) :
    (Members.get? key members).bind strings? = (Members.get? key others).bind strings? :=
  reordered.bind_eq key fun _ _ fits => fits.strings?_eq

theorem has_eq (key : String) : has key members = has key others := by
  rw [Members.has_eq_isSome, Members.has_eq_isSome]
  exact isSome_eq_of_optionRel (reordered.get? key)

theorem filter (keep : String × Json → Bool)
    (fair : ∀ key value other, Reordered value other → keep (key, value) = keep (key, other)) :
    ReorderedMap (members.filter keep) (others.filter keep) :=
  ⟨reordered.distinct.filter keep, reordered.matching.filter reordered.distinct fair⟩

theorem erase (key : String) :
    ReorderedMap (Members.erase key members) (Members.erase key others) :=
  reordered.filter _ fun _ _ _ _ => rfl

theorem moveToEnd (key : String) :
    ReorderedMap (Members.moveToEnd key members) (Members.moveToEnd key others) :=
  ⟨reordered.distinct.moveToEnd key, reordered.matching.moveToEnd reordered.distinct key⟩

end ReorderedMap

end Json

end SchemaLift
