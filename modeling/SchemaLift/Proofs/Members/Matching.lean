import Mathlib.Data.List.Perm.Subperm
import SchemaLift.Proofs.Members.Lookup

/-!
# Matching members

Two lists of members match when they are as long as each other and every entry of the first has a
related entry under the same key in the second. For distinct keys this is equality of maps up to a
relation of the values: it is reflexive, symmetric and transitive as far as that relation is.

Symmetry is a counting argument. The keys of the first list are distinct and among those of the
second, and there are not more of the latter.
-/

namespace SchemaLift.Members

variable {κ α β γ : Type} [DecidableEq κ]

/-- As many entries, and a related one under the same key for each entry of the first list. -/
def Matches (related : α → β → Prop) (left : List (κ × α)) (right : List (κ × β)) : Prop :=
  left.length = right.length ∧
    ∀ key value, (key, value) ∈ left →
      ∃ other, get? key right = some other ∧ related value other

theorem same_iff_matches (related : α → α → Bool) (left right : Members α) :
    same related left right = true ↔ Matches (fun value other => related value other = true)
      left right := by
  simp only [same, Matches, Bool.and_eq_true, beq_iff_eq, List.all_eq_true]
  refine and_congr_right fun _ => ⟨fun all key value present => ?_, fun all member present => ?_⟩
  · have found := all _ present
    split at found
    · next other lookup => exact ⟨other, lookup, found⟩
    · contradiction
  · rcases all member.1 member.2 present with ⟨other, lookup, fits⟩
    simp [lookup, fits]

namespace Matches

variable {related : α → β → Prop} {left : List (κ × α)} {right : List (κ × β)}

theorem mono {wider : α → β → Prop} (matching : Matches related left right)
    (widen : ∀ key value other, (key, value) ∈ left → related value other → wider value other) :
    Matches wider left right := by
  constructor
  · exact matching.1
  · intro key value present
    rcases matching.2 key value present with ⟨other, lookup, fits⟩
    exact ⟨other, lookup, widen key value other present fits⟩

theorem refl {related : α → α → Prop} {members : List (κ × α)} (distinct : Distinct members)
    (own : ∀ key value, (key, value) ∈ members → related value value) :
    Matches related members members :=
  ⟨rfl, fun key value present => ⟨value, distinct.get?_eq_some present, own key value present⟩⟩

/-- Members with the same keys match, whatever their values are. -/
theorem of_keys_eq (same : keys right = keys left) :
    Matches (fun _ _ => True) left right := by
  constructor
  · simpa [keys] using (congrArg List.length same).symm
  · intro key value present
    have there : key ∈ keys right := same ▸ mem_keys_of_mem present
    rcases exists_get?_eq_some_of_mem_keys there with ⟨other, lookup⟩
    exact ⟨other, lookup, trivial⟩

theorem keys_subset (matching : Matches related left right) : keys left ⊆ keys right := by
  intro key present
  rcases mem_keys_iff.mp present with ⟨value, member⟩
  rcases matching.2 key value member with ⟨other, lookup, _⟩
  exact mem_keys_of_mem (mem_of_get?_eq_some lookup)

/-- Matching members have the same keys, if those of the first are distinct. -/
theorem keys_perm (matching : Matches related left right) (distinct : Distinct left) :
    (keys left).Perm (keys right) := by
  have subperm : (keys left).Subperm (keys right) :=
    List.subperm_of_subset distinct matching.keys_subset
  exact List.Subperm.perm_of_length_le subperm (by simp [keys, matching.1])

theorem distinct (matching : Matches related left right) (distinct : Distinct left) :
    Distinct right :=
  (matching.keys_perm distinct).nodup_iff.mp distinct

theorem mem_keys_iff (matching : Matches related left right) (distinct : Distinct left)
    (key : κ) : key ∈ keys left ↔ key ∈ keys right :=
  (matching.keys_perm distinct).mem_iff

theorem get?_eq_some (matching : Matches related left right) {key : κ} {value : α}
    (lookup : get? key left = some value) :
    ∃ other, get? key right = some other ∧ related value other :=
  matching.2 key value (mem_of_get?_eq_some lookup)

theorem get?_eq_none (matching : Matches related left right) (distinct : Distinct left)
    {key : κ} (lookup : get? key left = none) : get? key right = none := by
  rw [get?_eq_none_iff, ← matching.mem_keys_iff distinct]
  exact get?_eq_none_iff.mp lookup

theorem symm {flipped : β → α → Prop} (matching : Matches related left right)
    (distinct : Distinct left)
    (flip : ∀ key value other, (key, value) ∈ left → related value other → flipped other value) :
    Matches flipped right left := by
  constructor
  · exact matching.1.symm
  · intro key other present
    have leftKey : key ∈ keys left :=
      (matching.mem_keys_iff distinct key).mpr (mem_keys_of_mem present)
    rcases Members.mem_keys_iff.mp leftKey with ⟨value, member⟩
    rcases matching.2 key value member with ⟨found, lookup, fits⟩
    have same : found = other := by
      have direct := (matching.distinct distinct).get?_eq_some present
      exact Option.some.inj (lookup.symm.trans direct)
    subst same
    exact ⟨value, distinct.get?_eq_some member, flip key value found member fits⟩

theorem trans {later : β → γ → Prop} {whole : α → γ → Prop} {last : List (κ × γ)}
    (first : Matches related left right) (second : Matches later right last)
    (compose : ∀ key value middle other, (key, value) ∈ left → related value middle →
      later middle other → whole value other) :
    Matches whole left last := by
  constructor
  · exact first.1.trans second.1
  · intro key value present
    rcases first.2 key value present with ⟨middle, lookup, fits⟩
    rcases second.get?_eq_some lookup with ⟨other, lastLookup, lastFits⟩
    exact ⟨other, lastLookup, compose key value middle other present fits lastFits⟩

/-! ## Dropping and adding a key on both sides -/

theorem erase {left : Members α} {right : Members β} (matching : Matches related left right)
    (distinct : Distinct left) (key : String) :
    Matches related (erase key left) (erase key right) := by
  constructor
  · have keysErase : ∀ {δ : Type} (members : Members δ),
        (Members.erase key members).length = ((keys members).filter (· ≠ key)).length := by
      intro δ members
      simp [Members.erase, keys, List.filter_map, Function.comp_def]
    rw [keysErase, keysErase]
    exact ((matching.keys_perm distinct).filter _).length_eq
  · intro name value present
    rcases mem_erase_iff.mp present with ⟨member, differs⟩
    rcases matching.2 name value member with ⟨other, lookup, fits⟩
    exact ⟨other, by rw [get?_erase, if_neg differs, lookup], fits⟩

theorem set {left : Members α} {right : Members β} (matching : Matches related left right)
    (distinct : Distinct left) {key : String} (absent : key ∉ keys left) {value : α} {other : β}
    (fits : related value other) :
    Matches related (set key value left) (set key other right) := by
  have absentRight : key ∉ keys right := by
    rwa [← matching.mem_keys_iff distinct]
  rw [set_of_not_mem absent, set_of_not_mem absentRight]
  refine ⟨by simp [matching.1], fun name found present => ?_⟩
  rcases List.mem_append.mp present with old | new
  · rcases matching.2 name found old with ⟨there, lookup, oldFits⟩
    exact ⟨there, by rw [get?_append, lookup, Option.some_or], oldFits⟩
  · cases List.mem_singleton.mp new
    exact ⟨other, by rw [get?_append_of_not_mem _ absentRight]; simp [get?_cons], fits⟩

end Matches

end SchemaLift.Members
