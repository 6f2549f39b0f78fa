import Mathlib.Data.List.Nodup
import SchemaLift.Proofs.Audit.Order
import SchemaLift.Proofs.Json.Pointers
import SchemaLift.Schema.Writer

/-!
# Sightings along the branches of a value

A list of sightings is located in a value when every sighting in it leads to what is written of its
schema there, and no two of them have the same location (`Located`). What is located along the
branches of an object or an array, under different tokens, is located in the whole
(`locatedBelow_branches`). For maps and lists the tokens are keys and positions.
-/

namespace SchemaLift

open Members

variable {location : Location} {value : Json} {sightings : List Sighting}

/-- Every sighting has a location of its own, behind the given one, and what is written of its
schema stands there in the value. -/
structure Located (location : Location) (value : Json) (sightings : List Sighting) : Prop where
  leads : ∀ sighting ∈ sightings, ∃ tokens, sighting.location = location ++ tokens ∧
    value.follow? tokens = some sighting.schema.toJson
  nodup : (sightings.map Sighting.location).Nodup

/-- Every sighting is located further inside the value. -/
structure LocatedBelow (location : Location) (value : Json) (sightings : List Sighting) : Prop
    extends Located location value sightings where
  apart : ∀ sighting ∈ sightings, sighting.location ≠ location

/-- The sightings, if there are any, are located where a token leads to. -/
def Under (location : Location) (value : Json) (token : String) (sightings : List Sighting) :
    Prop :=
  sightings ≠ [] →
    ∃ inner, value.member? token = some inner ∧ Located (location ++ [token]) inner sightings

theorem locatedBelow_nil (location : Location) (value : Json) : LocatedBelow location value [] :=
  ⟨⟨by simp, List.nodup_nil⟩, by simp⟩

/-- A schema is located where it is written, with what is located below it. -/
theorem LocatedBelow.self {schema : Schema}
    (below : LocatedBelow location schema.toJson sightings) (role : Role) :
    Located location schema.toJson (⟨location, role, schema⟩ :: sightings) := by
  constructor
  · intro sighting seen
    rcases List.mem_cons.mp seen with rfl | later
    · exact ⟨[], (List.append_nil _).symm, rfl⟩
    · exact below.leads sighting later
  · rw [List.map_cons, List.nodup_cons]
    refine ⟨fun present => ?_, below.nodup⟩
    rcases List.mem_map.mp present with ⟨sighting, seen, same⟩
    exact below.apart sighting seen same

/-- Nothing is located below a value that has no members. -/
theorem LocatedBelow.eq_nil (below : LocatedBelow location value sightings)
    (leaf : ∀ token, value.member? token = none) : sightings = [] := by
  refine List.eq_nil_iff_forall_not_mem.mpr fun sighting seen => ?_
  rcases below.leads sighting seen with ⟨tokens, same, follows⟩
  cases tokens with
  | nil => exact below.apart sighting seen (same.trans (List.append_nil _))
  | cons token rest =>
      rw [Json.follow?, leaf] at follows
      cases follows

/-! ## Branches -/

namespace Under

variable {token : String}

theorem nil (location : Location) (value : Json) (token : String) : Under location value token [] :=
  fun some => absurd rfl some

theorem of_located {inner : Json} (found : value.member? token = some inner)
    (located : Located (location ++ [token]) inner sightings) :
    Under location value token sightings :=
  fun _ => ⟨inner, found, located⟩

/-- A sighting under a token leads through that token. -/
theorem leads (under : Under location value token sightings) {sighting : Sighting}
    (seen : sighting ∈ sightings) : ∃ tokens, sighting.location = location ++ token :: tokens ∧
      value.follow? (token :: tokens) = some sighting.schema.toJson := by
  rcases under (List.ne_nil_of_mem seen) with ⟨inner, found, located⟩
  rcases located.leads sighting seen with ⟨tokens, same, follows⟩
  refine ⟨tokens, by rw [same, List.append_assoc, List.singleton_append], ?_⟩
  rw [Json.follow?, found, Option.bind_some, follows]

theorem nodup (under : Under location value token sightings) :
    (sightings.map Sighting.location).Nodup := by
  cases sightings with
  | nil => exact List.nodup_nil
  | cons sighting rest =>
      rcases under (by simp) with ⟨inner, _, located⟩
      exact located.nodup

/-- What is located in an object is located under a token if the object is written only where it has
members. -/
theorem of_object {members entries : Members Json}
    (found : get? token members = if entries = [] then none else some (.object entries))
    (below : LocatedBelow (location ++ [token]) (.object entries) sightings) :
    Under location (.object members) token sightings := by
  cases entries with
  | nil =>
      rw [below.eq_nil fun _ => rfl]
      exact nil _ _ _
  | cons => exact of_located found below.toLocated

/-- What is located in an array is located under a token if the array is written only where it has
elements. -/
theorem of_array {members : Members Json} {elements : List Json}
    (found : get? token members = if elements = [] then none else some (.array elements))
    (below : LocatedBelow (location ++ [token]) (.array elements) sightings) :
    Under location (.object members) token sightings := by
  cases elements with
  | nil =>
      rw [below.eq_nil fun _ => by simp [Json.member?]]
      exact nil _ _ _
  | cons => exact of_located found below.toLocated

end Under

/-- What is located under different tokens is located in the whole value. -/
theorem locatedBelow_branches {branches : List (String × List Sighting)}
    (distinct : Distinct branches)
    (each : ∀ token sightings, (token, sightings) ∈ branches →
      Under location value token sightings) :
    LocatedBelow location value (branches.flatMap Prod.snd) := by
  have leads : ∀ sighting ∈ branches.flatMap Prod.snd, ∃ token tokens,
      sighting.location = location ++ token :: tokens ∧
        value.follow? (token :: tokens) = some sighting.schema.toJson := by
    intro sighting seen
    rcases List.mem_flatMap.mp seen with ⟨⟨token, sightings⟩, branch, inside⟩
    exact ⟨token, (each token sightings branch).leads inside⟩
  refine ⟨⟨fun sighting seen => ?_, ?_⟩, fun sighting seen => ?_⟩
  · rcases leads sighting seen with ⟨token, tokens, same, follows⟩
    exact ⟨token :: tokens, same, follows⟩
  · rw [List.map_flatMap, List.nodup_flatMap]
    refine ⟨fun branch present => (each branch.1 branch.2 present).nodup, ?_⟩
    refine (List.pairwise_map.mp distinct).imp_of_mem fun {left right} onLeft onRight differs => ?_
    intro place here there
    rcases List.mem_map.mp here with ⟨sighting, seen, rfl⟩
    rcases List.mem_map.mp there with ⟨other, alsoSeen, same⟩
    rcases (each left.1 left.2 onLeft).leads seen with ⟨tokens, first, _⟩
    rcases (each right.1 right.2 onRight).leads alsoSeen with ⟨others, second, _⟩
    rw [first, second, List.append_cancel_left_eq, List.cons.injEq] at same
    exact differs same.1.symm
  · rcases leads sighting seen with ⟨token, tokens, same, _⟩
    rw [same]
    simp

/-- What is located under one token is located in the whole value. -/
theorem Under.locatedBelow {token : String} (under : Under location value token sightings) :
    LocatedBelow location value sightings := by
  have whole : LocatedBelow location value ([(token, sightings)].flatMap Prod.snd) := by
    refine locatedBelow_branches (List.nodup_singleton token) fun other found present => ?_
    cases List.mem_singleton.mp present
    exact under
  rwa [List.flatMap_singleton] at whole

/-! ## Maps and lists -/

/-- What is located under the keys of a map is located in the whole value. -/
theorem locatedBelow_entries {α : Type} {entries : Members α} (see : String → α → List Sighting)
    (distinct : Distinct entries)
    (each : ∀ key entry, (key, entry) ∈ entries → Under location value key (see key entry)) :
    LocatedBelow location value (entries.flatMap fun entry => see entry.1 entry.2) := by
  have branches : Distinct (entries.map fun entry => (entry.1, see entry.1 entry.2)) := by
    simpa [Distinct, keys, Function.comp_def] using distinct
  have whole : LocatedBelow location value
      ((entries.map fun entry => (entry.1, see entry.1 entry.2)).flatMap Prod.snd) := by
    refine locatedBelow_branches branches fun token sightings present => ?_
    rcases List.mem_map.mp present with ⟨⟨key, entry⟩, listed, same⟩
    cases same
    exact each key entry listed
  rwa [List.flatMap_map] at whole

/-- What is located under the keys of an object that is written of a map. -/
theorem locatedBelow_object {α : Type} {entries : Members α} {write : α → Json}
    {see : Location → α → List Sighting} (distinct : Distinct entries)
    (each : ∀ key entry, (key, entry) ∈ entries → ∀ place, Located place (write entry)
      (see place entry)) :
    LocatedBelow location (.object (mapValues write entries))
      (entries.flatMap fun entry => see (location ++ [entry.1]) entry.2) := by
  refine locatedBelow_entries (fun key => see (location ++ [key])) distinct
    fun key entry present => ?_
  refine Under.of_located ?_ (each key entry present _)
  rw [Json.member?, get?_mapValues, distinct.get?_eq_some present, Option.map_some]

theorem toString_injective : Function.Injective (toString : Nat → String) := by
  intro left right same
  have read := JsonPointer.position?_toString left
  rw [same, JsonPointer.position?_toString right] at read
  exact (Option.some.inj read).symm

theorem Json.member?_array (elements : List Json) (position : Nat) :
    Json.member? (toString position) (.array elements) = elements[position]? := by
  rw [member?, JsonPointer.position?_toString, Option.bind_some]

/-- What is located at the positions of an array that is written of a list. -/
theorem locatedBelow_array {α : Type} {values : List α} {write : α → Json}
    {see : Location → α → List Sighting}
    (each : ∀ entry ∈ values, ∀ place, Located place (write entry) (see place entry)) :
    LocatedBelow location (.array (values.map write))
      (values.zipIdx.flatMap fun entry => see (location ++ [toString entry.2]) entry.1) := by
  have positions : Distinct (values.zipIdx.map fun entry => (toString entry.2, entry.1)) := by
    have indices : (values.zipIdx.map Prod.snd).Nodup := by
      rw [List.zipIdx_map_snd]
      exact List.nodup_range'
    have texts := indices.map toString_injective
    rw [List.map_map] at texts
    rw [Distinct, keys, List.map_map]
    exact texts
  have whole : LocatedBelow location (.array (values.map write))
      ((values.zipIdx.map fun entry => (toString entry.2, entry.1)).flatMap fun entry =>
        see (location ++ [entry.1]) entry.2) := by
    refine locatedBelow_entries (fun token => see (location ++ [token])) positions
      fun token entry present => ?_
    rcases List.mem_map.mp present with ⟨⟨own, position⟩, listed, same⟩
    cases same
    have found := List.mem_zipIdx_iff_getElem?.mp listed
    refine Under.of_located ?_ (each own (List.mem_of_getElem? found) _)
    rw [Json.member?_array, List.getElem?_map, found, Option.map_some]
  rwa [List.flatMap_map] at whole

end SchemaLift
