import SchemaLift.Proofs.Json.Maps
import SchemaLift.Proofs.Json.Within
import SchemaLift.Proofs.Number.Text

/-!
# Values that can be read

What is read from a text has no object with a key twice and no number that could not be read again
(`Json.Proper`). Parts of such a value are such values, and so are maps that are put together from
them (`Json.ProperMap.extend`).
-/

namespace SchemaLift.Json

/-- What holds of a value that is read, apart from what is inside: a number can be read, and no key
stands twice. -/
def IsProper (value : Json) : Prop :=
  (∀ number, value = .number number → number.IsProper) ∧ Members.Distinct value.members

/-- A value that can be read, with all values inside it. -/
def Proper (value : Json) : Prop :=
  ∀ inner ∈ value.within, inner.IsProper

theorem proper_iff {value : Json} :
    value.Proper ↔ value.IsProper ∧ ∀ part ∈ value.parts, part.Proper :=
  forall_within_iff

theorem Proper.part {value part : Json} (proper : value.Proper) (inside : part ∈ value.parts) :
    part.Proper :=
  (proper_iff.mp proper).2 part inside

theorem Proper.distinctKeys {value : Json} (proper : value.Proper) : value.DistinctKeys :=
  distinctKeys_iff.mpr fun inner inside => (proper inner inside).2

theorem proper_null : Json.null.Proper :=
  proper_iff.mpr ⟨⟨nofun, List.nodup_nil⟩, nofun⟩

theorem proper_bool (value : Bool) : (Json.bool value).Proper :=
  proper_iff.mpr ⟨⟨nofun, List.nodup_nil⟩, nofun⟩

theorem proper_string (value : String) : (Json.string value).Proper :=
  proper_iff.mpr ⟨⟨nofun, List.nodup_nil⟩, nofun⟩

theorem proper_number {value : Number} (proper : value.IsProper) : (Json.number value).Proper := by
  refine proper_iff.mpr ⟨⟨?_, List.nodup_nil⟩, nofun⟩
  rintro _ ⟨⟩
  exact proper

theorem proper_array {elements : List Json} (each : ∀ element ∈ elements, element.Proper) :
    (Json.array elements).Proper :=
  proper_iff.mpr ⟨⟨nofun, List.nodup_nil⟩, each⟩

theorem proper_strings (values : List String) : (Json.strings values).Proper := by
  apply proper_array
  rw [List.forall_mem_map]
  exact fun value _ => proper_string value

/-! ## Maps -/

/-- Members whose values can be read. -/
def ProperValues (members : Members Json) : Prop :=
  ∀ member ∈ members, member.2.Proper

/-- Members that can be read: no key stands twice, and all values can be read. -/
def ProperMap (members : Members Json) : Prop :=
  Members.Distinct members ∧ ProperValues members

theorem properMap_iff (members : Members Json) : ProperMap members ↔ (object members).Proper := by
  rw [proper_iff, ProperMap, ProperValues, parts, List.forall_mem_map]
  refine and_congr_left fun _ => ⟨fun distinct => ⟨?_, distinct⟩, And.right⟩
  rintro number ⟨⟩

theorem properValues_nil : ProperValues [] :=
  nofun

theorem properValues_cons {key : String} {value : Json} {rest : Members Json} :
    ProperValues ((key, value) :: rest) ↔ value.Proper ∧ ProperValues rest :=
  List.forall_mem_cons

theorem properValues_append {front back : Members Json} :
    ProperValues (front ++ back) ↔ ProperValues front ∧ ProperValues back :=
  List.forall_mem_append

namespace ProperMap

variable {members others : Members Json}

theorem distinctMap (proper : ProperMap members) : DistinctMap members :=
  (distinctMap_iff_distinctKeys members).mpr ((properMap_iff members).mp proper).distinctKeys

theorem sublist (proper : ProperMap members) (part : others.Sublist members) : ProperMap others :=
  ⟨proper.1.sublist (part.map Prod.fst), fun member inside => proper.2 member (part.subset inside)⟩

theorem filter (proper : ProperMap members) (keep : String × Json → Bool) :
    ProperMap (members.filter keep) :=
  proper.sublist List.filter_sublist

theorem erase (proper : ProperMap members) (key : String) : ProperMap (Members.erase key members) :=
  proper.filter _

theorem takeAs {β : Type} (proper : ProperMap members) (read : Json → Option β) (key : String) :
    ProperMap (Members.takeAs read key members).2 :=
  proper.sublist (Members.takeAs_sublist read key members)

theorem get? (proper : ProperMap members) {key : String} {value : Json}
    (found : Members.get? key members = some value) : value.Proper :=
  proper.2 (key, value) (Members.mem_of_get?_eq_some found)

theorem value (proper : ProperMap members) {key : String} {inner : Members Json}
    (found : Members.get? key members = some (.object inner)) : ProperMap inner :=
  (properMap_iff inner).mpr (proper.get? found)

theorem moveToEnd (proper : ProperMap members) (key : String) :
    ProperMap (Members.moveToEnd key members) := by
  refine ⟨(proper.distinctMap.moveToEnd key).1, ?_⟩
  rw [Members.moveToEnd]
  cases found : Members.get? key members with
  | none => exact proper.2
  | some value =>
      rw [properValues_append, properValues_cons]
      exact ⟨(proper.erase key).2, proper.get? found, properValues_nil⟩

/-- Members that are set one after the other. -/
theorem extend (proper : ProperMap members) (each : ProperValues others) :
    ProperMap (Members.extend members others) := by
  refine ⟨Members.distinct_extend proper.1, ?_⟩
  rintro ⟨name, value⟩ inside
  rcases Members.exists_of_mem_extend inside with ⟨key, present⟩ | present
  · exact each (key, value) present
  · exact proper.2 (name, value) present

end ProperMap

theorem properMap_ofEntries {entries : List (String × Json)} (each : ProperValues entries) :
    ProperMap (Members.ofEntries entries) :=
  ProperMap.extend ⟨List.nodup_nil, properValues_nil⟩ each

end SchemaLift.Json
