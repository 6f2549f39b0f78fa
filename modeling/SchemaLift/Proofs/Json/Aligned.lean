import SchemaLift.Proofs.Json.Reordered
import SchemaLift.Proofs.Members.Related
import SchemaLift.Schema.Equality
import SchemaLift.Schema.Writer

/-!
# Equal members, put together in the same way

An object is written by putting members one after the other and then setting further ones. Members
under the same keys in the same order with equal values (`Json.Aligned`) can be put behind one
another, and equal maps can be set over equal maps (`Members.Matches.extend`). So what is put
together in the same way from equal pieces is equal, whatever the order of the maps among them.
-/

namespace SchemaLift

namespace Members

variable {κ α β γ δ : Type} {related : α → β → Prop}

/-- Maps whose lookups all find related values match. -/
theorem Matches.of_lookup [DecidableEq κ] {left : List (κ × α)} {right : List (κ × β)}
    (distinct : Distinct left) (others : Distinct right)
    (each : ∀ key, Option.Rel related (get? key left) (get? key right)) :
    Matches related left right := by
  have found (key : κ) : key ∈ keys left ↔ key ∈ keys right := by
    rw [← not_iff_not, ← get?_eq_none_iff, ← get?_eq_none_iff, ← Option.not_isSome_iff_eq_none,
      ← Option.not_isSome_iff_eq_none, isSome_eq_of_optionRel (each key)]
  have perm : (keys left).Perm (keys right) :=
    (List.perm_ext_iff_of_nodup distinct others).mpr found
  refine ⟨by simpa [keys] using perm.length_eq, fun key value present => ?_⟩
  have own := each key
  rw [distinct.get?_eq_some present] at own
  generalize get? key right = there at own ⊢
  cases own with
  | some fits => exact ⟨_, rfl, fits⟩

theorem Matches.mapValues {later : γ → δ → Prop} {left : Members α} {right : Members β}
    {first : α → γ} {second : β → δ}
    (matching : Matches (fun value other => later (first value) (second other)) left right) :
    Matches later (mapValues first left) (mapValues second right) := by
  refine ⟨by simpa [Members.mapValues] using matching.1, fun key value present => ?_⟩
  rcases List.mem_map.mp present with ⟨⟨name, own⟩, inside, same⟩
  cases same
  rcases matching.2 name own inside with ⟨other, found, fits⟩
  exact ⟨second other, by rw [get?_mapValues, found, Option.map_some], fits⟩

/-- Members that are related one by one match. -/
theorem Related.matching [DecidableEq κ] {left : List (κ × α)} {right : List (κ × β)}
    (all : Related (fun _ => related) left right) (distinct : Distinct left) :
    Matches related left right :=
  ⟨all.length_eq, fun _ _ present => all.get?_eq_some (distinct.get?_eq_some present)⟩

/-! ## Members that are set -/

theorem get?_extend (key : String) {members additions : Members α} (distinct : Distinct additions) :
    get? key (extend members additions) = (get? key additions).or (get? key members) := by
  induction additions generalizing members with
  | nil => rfl
  | cons addition rest ih =>
      rcases addition with ⟨name, value⟩
      rcases List.nodup_cons.mp distinct with ⟨absent, distinct⟩
      change get? key (extend (set name value members) rest) = _
      rw [ih distinct, get?_set, get?_cons]
      by_cases same : name = key
      · subst same
        simp [get?_eq_none_iff.mpr absent]
      · simp [same]

/-- Maps match when matching maps are set over matching maps. -/
theorem Matches.extend {left additions : Members α} {right others : Members β}
    (matching : Matches related left right) (distinct : Distinct left)
    (added : Matches related additions others) (apart : Distinct additions) :
    Matches related (extend left additions) (extend right others) := by
  apply Matches.of_lookup (distinct_extend distinct) (distinct_extend (matching.distinct distinct))
  intro key
  rw [get?_extend key apart, get?_extend key (added.distinct apart)]
  have first := added.lookup apart key
  have second := matching.lookup distinct key
  generalize get? key additions = new, get? key others = newToo at first
  cases first with
  | some fits => exact Option.Rel.some fits.2
  | none => exact optionRel_mono second fun _ _ fits => fits.2

end Members

namespace Json

/-- Members under the same keys in the same order, with equal values. -/
def Aligned (left right : Members Json) : Prop :=
  Members.Related (fun _ value other => value.same other = true) left right

namespace Aligned

variable {left right : Members Json}

theorem nil : Aligned [] [] :=
  Members.Related.nil

theorem single (key : String) {value other : Json} (equal : value.same other = true) :
    Aligned [(key, value)] [(key, other)] :=
  Members.Related.cons equal nil

theorem append {back last : Members Json} (fronts : Aligned left right)
    (backs : Aligned back last) : Aligned (left ++ back) (right ++ last) :=
  Members.Related.append fronts backs

theorem refl (own : ∀ member ∈ left, member.2.same member.2 = true) : Aligned left left :=
  Members.Related.refl fun _ _ present => own _ present

theorem sameMap (aligned : Aligned left right) (distinct : Members.Distinct left) :
    sameMap left right = true :=
  (sameMap_iff_matches left right).mpr (Members.Related.matching aligned distinct)

theorem optional {α : Type} (key : String) {related : α → α → Bool} {write : α → Json}
    {value other : Option α} (equal : sameOption related value other = true)
    (each : ∀ inner outer, value = some inner → related inner outer = true →
      (write inner).same (write outer) = true) :
    Aligned (optional key write value) (SchemaLift.optional key write other) := by
  cases value <;> cases other <;> simp only [sameOption, Bool.false_eq_true] at equal
  · exact nil
  · exact single key (each _ _ rfl equal)

theorem unlessEmpty (key : String) {values others : List Json}
    (equal : sameElements values others = true) :
    Aligned (unlessEmpty key values) (SchemaLift.unlessEmpty key others) := by
  have count := ((sameElements_iff_forall₂ values others).mp equal).length_eq
  rw [SchemaLift.unlessEmpty, SchemaLift.unlessEmpty, isEmpty_eq_of_length_eq count]
  split
  · exact nil
  · exact single key (by rwa [same])

/-- A map that is written unless it is empty. -/
theorem object (key : String) {members others : Members Json}
    (equal : Json.sameMap members others = true) :
    Aligned (if members.isEmpty then [] else [(key, .object members)])
      (if others.isEmpty then [] else [(key, .object others)]) := by
  have count := ((sameMap_iff_matches members others).mp equal).1
  rw [isEmpty_eq_of_length_eq count]
  split
  · exact nil
  · exact single key ((same_object_iff members others).mpr equal)

end Aligned

/-- Equal maps, set over equal maps, are equal. -/
theorem sameMap_extend {left right additions others : Members Json}
    (equal : sameMap left right = true) (distinct : Members.Distinct left)
    (added : sameMap additions others = true) (apart : Members.Distinct additions) :
    sameMap (Members.extend left additions) (Members.extend right others) = true := by
  rw [sameMap_iff_matches] at equal added ⊢
  exact equal.extend distinct added apart

end Json

end SchemaLift
