import SchemaLift.Proofs.Document.Parameters
import SchemaLift.Proofs.Kept.Schemas

/-!
# What reading keeps of contents

What is written of media types, parameters, request bodies and responses mirrors what they were
read from. Each of them reads some members as parts and leaves over the others, and what is written
of it mirrors its members if it does so under the keys of these parts (`Part.mirrors_of_known`).
A name or a location that is no text is left over, and it is written instead of the text that stands
for it (`Parameter.mirrors_ofMembers`).
-/

namespace SchemaLift

open Members

/-- An object is mirrored if its parts are and if its other members are written as they are. -/
theorem Part.mirrors_of_known {part : Part} {members written : Members Json}
    (accepted : part.accepts (.object members) = true)
    (inline : part.refers = true → Reference.ofMembers? members = none)
    (fixed : ∀ name, part.under members name = (get? name (part.known members)).getD .plain)
    (known : ∀ name own child, (name, own) ∈ part.known members →
      get? name members = some child → own.Mirrors child (get? name written))
    (others : ∀ name child, name ∉ keys (part.known members) →
      get? name members = some child → get? name written = some child) :
    part.Mirrors (.object members) (some (.object written)) := by
  apply mirrors_object accepted
  intro name child there
  have inside : part.inside (.object members) (.key name) = part.under members name := by
    cases refers : part.refers with
    | true => simp [Part.inside, inline refers]
    | false => simp [Part.inside, refers]
  rw [inside, fixed, Option.bind_some, Json.step?_key_object]
  cases own : get? name (part.known members) with
  | some own => exact known name _ child (mem_of_get?_eq_some ‹_›) there
  | none =>
      rw [others name child (get?_eq_none_iff.mp own) there]
      exact mirrors_plain child

/-! ## Media types -/

theorem mirrors_readSchema? {value : Json} (distinct : value.DistinctKeys) {schema : Option Schema}
    (read : readSchema? (some value) = .ok schema) :
    Part.schema.Mirrors value (schema.map Schema.toJson) := by
  rcases bind_eq_ok_iff.mp read with ⟨own, found, same⟩
  cases pure_eq_ok_iff.mp same
  exact Schema.mirrors_of_ofJson distinct found

theorem MediaType.mirrors_ofJson {name : String} {value : Json} (distinct : value.DistinctKeys)
    {media : MediaType} (read : ofJson name value = .ok media) :
    Part.mediaType.Mirrors value (some media.toJson) := by
  have sound := sound_of_ofJson distinct read
  cases value with
  | null => exact Part.mirrors_null
  | object members =>
      have keys := (Json.distinctMap_iff_distinctKeys members).mpr distinct
      rcases bind_eq_ok_iff.mp read with ⟨schema, found, same⟩
      cases pure_eq_ok_iff.mp same
      rw [sound.toJson_eq]
      refine Part.mirrors_of_known rfl (by rintro ⟨⟩) (fun _ => rfl) ?_ ?_
      · intro name own child known there
        cases List.mem_singleton.mp known
        rw [there] at found
        rw [get?_append, get?_eq_none_iff.mpr (not_mem_keys_erase _ _), Option.or_none,
          get?_optional, if_pos rfl]
        exact mirrors_readSchema? (keys.get? there) found
      · intro name child other there
        have differs : name ≠ "schema" := by simpa [Part.known] using other
        simp [get?_append, Ne.symm differs, get?_erase, differs, there]
  | _ => cases read

theorem mirrors_readContent {value : Json} (distinct : value.DistinctKeys)
    {content : Option Content} (read : readContent (some value) = .ok content) :
    (Part.map .mediaType).Mirrors value (content.map writeContent) := by
  cases value with
  | null => exact Part.mirrors_null
  | object entries =>
      rcases bind_eq_ok_iff.mp read with ⟨members, inside, same⟩
      cases pure_eq_ok_iff.mp same
      have keys := (Json.distinctMap_iff_distinctKeys entries).mpr distinct
      apply Part.mirrors_of_related
      exact (readEntries_eq_ok_iff.mp inside).mono fun name value media present =>
        MediaType.mirrors_ofJson (keys.2 name value present)
  | _ => cases read

/-! ## References and items -/

/-- A reference, or an item that mirrors its members. -/
theorem RefOr.mirrors_ofJson {α : Type} {part : Part} (refers : part.refers = true)
    {place : Place} {read : Members Json → Except Fault α} {write : α → Json} {value : Json}
    (distinct : value.DistinctKeys) {result : RefOr α}
    (found : RefOr.ofJson place read value = .ok result)
    (each : ∀ members item, value = .object members → result = .item item →
      Reference.ofMembers? members = none → read (withoutReference members) = .ok item →
        part.Mirrors (.object members) (some (write item))) :
    part.Mirrors value (some (result.toJson write)) := by
  cases value with
  | object members =>
      have keys := (Json.distinctMap_iff_distinctKeys members).mpr distinct
      rw [ofJson] at found
      split at found
      · next target reference =>
          cases found
          exact Reference.mirrors refers keys.1 reference
      · next inline =>
          rcases bind_eq_ok_iff.mp found with ⟨item, inside, same⟩
          cases pure_eq_ok_iff.mp same
          exact each members item rfl rfl inline inside
  | _ => cases found

/-! ## Request bodies and responses -/

/-- A content and what is left over around it. -/
theorem mirrors_aroundContent {members extra : Members Json} (distinct : Json.DistinctMap members)
    (inline : Reference.ofMembers? members = none) (leftOver : LeftOver ["content"] extra)
    (rest : extra = erase "content" (withoutReference members)) {content : Option Content}
    (read : readContent (get? "content" (withoutReference members)) = .ok content) :
    Part.body.Mirrors (.object members) (some (aroundContent extra content)) := by
  have moved : Distinct (withoutReference members) := distinct.1.moveToEnd "$ref"
  rw [aroundContent_eq leftOver (rest ▸ moved.erase "content")]
  refine Part.mirrors_of_known rfl (fun _ => inline) (fun _ => rfl) ?_ ?_
  · intro name own child known there
    cases List.mem_singleton.mp known
    rw [withoutReference, get?_moveToEnd distinct.1, there] at read
    rw [get?_append, get?_eq_none_iff.mpr (leftOver.keys "content" (by simp)), Option.none_or,
      get?_optional, if_pos rfl]
    exact mirrors_readContent (distinct.get? there) read
  · intro name child other there
    have differs : name ≠ "content" := by simpa [Part.known] using other
    simp [get?_append, rest, get?_erase, differs, withoutReference, get?_moveToEnd distinct.1,
      there]

theorem RequestBody.mirrors_ofJson {value : Json} (distinct : value.DistinctKeys)
    {body : RefOr RequestBody} (read : ofJson value = .ok body) :
    Part.body.Mirrors value (some (body.toJson toJson)) := by
  have sound := sound_of_ofJson distinct read
  apply RefOr.mirrors_ofJson rfl distinct read
  rintro members item rfl rfl inline inside
  have keys := (Json.distinctMap_iff_distinctKeys members).mpr distinct
  have leftOver : LeftOver ["content"] item.extra := sound.settled.extra
  rcases bind_eq_ok_iff.mp inside with ⟨content, found, same⟩
  cases pure_eq_ok_iff.mp same
  exact mirrors_aroundContent keys inline leftOver rfl found

theorem Response.mirrors_ofJson {value : Json} (distinct : value.DistinctKeys)
    {response : RefOr Response} (read : ofJson value = .ok response) :
    Part.body.Mirrors value (some (response.toJson toJson)) := by
  have sound := sound_of_ofJson distinct read
  apply RefOr.mirrors_ofJson rfl distinct read
  rintro members item rfl rfl inline inside
  have keys := (Json.distinctMap_iff_distinctKeys members).mpr distinct
  have leftOver : LeftOver ["content"] item.extra := sound.settled.extra
  rcases bind_eq_ok_iff.mp inside with ⟨content, found, same⟩
  cases pure_eq_ok_iff.mp same
  exact mirrors_aroundContent keys inline leftOver rfl found

/-! ## Parameters -/

namespace Parameter

/-- What is written of a name or a location: what was left over, or the text that was read. -/
theorem getD_filter_leaves {key : String} (known : key ∈ ["name", "in"]) (value : Json) :
    (Option.filter (fun value => leaves (key, value)) (some value)).getD
      (.string (value.string?.getD "")) = value := by
  have differs : key ≠ "schema" ∧ key ≠ "content" := by
    rcases List.mem_pair.mp known with rfl | rfl <;> decide
  have kept : leaves (key, value) = !value.string?.isSome := by
    simp only [List.mem_cons, List.not_mem_nil, or_false] at known
    simp [leaves, differs, known]
  cases text : value.string? with
  | none =>
      rw [Option.filter_some_pos (by rw [kept, text]; rfl)]
      rfl
  | some own =>
      rw [Option.filter_some_neg (by simp [kept, text])]
      exact (Json.eq_string_of_string? text).symm

theorem mirrors_ofMembers {members : Members Json} (distinct : Json.DistinctMap members)
    (inline : Reference.ofMembers? members = none) {parameter : Parameter}
    (settled : parameter.Settled) (apart : Distinct parameter.extra)
    (read : ofMembers (withoutReference members) = .ok parameter) :
    Part.parameter.Mirrors (.object members) (some parameter.toJson) := by
  have moved : Distinct (withoutReference members) := distinct.1.moveToEnd "$ref"
  rw [ofMembers_eq moved] at read
  simp only [withoutReference, get?_moveToEnd distinct.1] at read
  rcases bind_eq_ok_iff.mp read with ⟨schema, own, read⟩
  rcases bind_eq_ok_iff.mp read with ⟨content, inside, read⟩
  cases pure_eq_ok_iff.mp read
  rw [toJson_eq settled apart]
  refine Part.mirrors_of_known rfl (fun _ => inline) (fun _ => rfl) ?_ ?_
  · intro name part child known there
    rcases List.mem_pair.mp known with same | same
    · cases same
      rw [there] at own
      rw [get?_written settled apart (by simp)]
      have mirrors := mirrors_readSchema? (distinct.get? there) own
      simpa [parts, get?_append] using mirrors
    · cases same
      rw [there] at inside
      rw [get?_written settled apart (by simp)]
      have mirrors := mirrors_readContent (distinct.get? there) inside
      simpa [parts, get?_append] using mirrors
  · intro name child other there
    have differs : name ≠ "schema" ∧ name ≠ "content" := by simpa [Part.known] using other
    have left : get? name ((moveToEnd "$ref" members).filter leaves) =
        Option.filter (fun value => leaves (name, value)) (some child) := by
      rw [(distinct.1.moveToEnd _).get?_filter, get?_moveToEnd distinct.1, there]
    have last : get? name (optional "schema" Schema.toJson schema ++
        optional "content" writeContent content) = none := by
      simp [get?_append, Ne.symm differs.1, Ne.symm differs.2]
    rw [get?_append, parts, last, Option.or_none, extend_identity apart]
    by_cases named : name = "name"
    · subst named
      rw [List.cons_append, get?_cons, if_pos rfl, left, there, Option.bind_some,
        getD_filter_leaves (by simp)]
    · by_cases located : name = "in"
      · subst located
        rw [List.cons_append, get?_cons, if_neg (by decide), List.cons_append, get?_cons,
          if_pos rfl, left, there, Option.bind_some, getD_filter_leaves (by simp)]
      · have kept : leaves (name, child) = true := by simp [leaves, differs, named, located]
        rw [List.cons_append, get?_cons, if_neg (Ne.symm named), List.cons_append, get?_cons,
          if_neg (Ne.symm located), List.nil_append, apart.get?_filter, left]
        simp [kept, named, located]

theorem mirrors_ofJson {value : Json} (distinct : value.DistinctKeys)
    {parameter : RefOr Parameter} (read : RefOr.ofJson .parameter ofMembers value = .ok parameter) :
    Part.parameter.Mirrors value (some (parameter.toJson toJson)) := by
  have sound := RefOr.sound_of_ofJson (fun _ _ => sound_of_ofMembers) distinct read
  apply RefOr.mirrors_ofJson rfl distinct read
  rintro members item rfl rfl inline inside
  have keys := (Json.distinctMap_iff_distinctKeys members).mpr distinct
  have maps : item.DistinctMaps := sound.maps
  exact mirrors_ofMembers keys inline sound.settled maps.extra.1 inside

theorem mirrors_listOf {value : Json} (distinct : value.DistinctKeys)
    {parameters : List (RefOr Parameter)} (read : listOf (some value) = .ok parameters) :
    (Part.list .parameter).Mirrors value
      (get? "parameters" (listMember parameters)) := by
  rw [listMember, get?_unlessEmpty, if_pos rfl]
  cases value with
  | null => exact Part.mirrors_null
  | array elements =>
      apply Part.Mirrors.unless_array
      apply Part.mirrors_of_forall₂
      exact forall₂_imp_of_mem (mapM_eq_ok_iff.mp read) fun value inside parameter =>
        mirrors_ofJson (distinct.part inside)
  | _ => cases read

end Parameter

end SchemaLift
