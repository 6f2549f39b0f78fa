import SchemaLift.Proofs.Document.Parts

/-!
# Contents, written and read again

Contents, and the request bodies and responses that hold them. A content is written behind the
members that are left over, and read from them wherever it stands. A `$ref` that is no reference
stays the last of those members.
-/

namespace SchemaLift

open Members

/-! ## Members that are written only if there is a value -/

theorem optional_congr {α : Type} (key : String) {write : α → Json} {left right : Option α}
    (same : left.map write = right.map write) :
    optional key write left = optional key write right := by
  have each : ∀ value : Option α, optional key write value = optional key id (value.map write) := by
    intro value
    cases value <;> rfl
  rw [each, same, ← each]

theorem erase_optional {α : Type} (key : String) (write : α → Json) (value : Option α) :
    erase key (optional key write value) = [] := by
  cases value <;> simp [optional, erase]

theorem distinct_optional {α : Type} (key : String) (write : α → Json) (value : Option α) :
    Distinct (optional key write value) := by
  cases value <;> simp [optional, Distinct]

/-! ## Media types -/

/-- The schema at a position, if there is one. -/
theorem roundTrips_readSchema? {schema : Option Schema} (counts : Bool)
    (sound : ∀ found, schema = some found → found.Sound) :
    RoundTrips (sameOption Schema.same) (Option.map Schema.toJson)
      (fun enums found schema => schema = some found ∧ counts = enums) schema
      (readSchema? (schema.map Schema.toJson)) := by
  have all := RoundTrips.option fun inner found => (sound inner found).roundTrips counts
  apply RoundTrips.build id all
  · cases schema with
    | none => rfl
    | some inner =>
        simp only [Option.map_some, readSchema?, readOption]
        cases Schema.ofJson inner.toJson <;> rfl
  · exact fun back _ => rfl
  · exact fun back again => again
  · simp
  · simp

theorem MediaType.Sound.distinct_written {media : MediaType} (sound : media.Sound) :
    Distinct (optional "schema" Schema.toJson media.schema ++ media.extra) := by
  refine distinct_append_iff.mpr ⟨distinct_optional _ _ _, sound.extra.1, fun key present => ?_⟩
  rw [(mem_keys_optional.mp present).1]
  exact sound.settled

theorem MediaType.Sound.toJson_eq {media : MediaType} (sound : media.Sound) :
    media.toJson = .object (optional "schema" Schema.toJson media.schema ++ media.extra) :=
  congrArg Json.object (extend_eq_append sound.distinct_written)

/-- A media type at a position where enumerations count or do not. -/
theorem MediaType.Sound.roundTrips {media : MediaType} (sound : media.Sound) (counts : Bool)
    (name : String) :
    RoundTrips same toJson
      (fun enums found (media : MediaType) => media.schema = some found ∧ counts = enums) media
      (ofJson name media.toJson) := by
  have found : get? "schema" (optional "schema" Schema.toJson media.schema ++ media.extra) =
      media.schema.map Schema.toJson := by
    rw [get?_append, get?_eq_none_iff.mpr sound.settled, Option.or_none, get?_optional, if_pos rfl]
  have rest : erase "schema" (optional "schema" Schema.toJson media.schema ++ media.extra) =
      media.extra := by
    have front := erase_optional "schema" Schema.toJson media.schema
    have back := erase_of_not_mem sound.settled
    unfold erase at front back ⊢
    rw [List.filter_append, front, back, List.nil_append]
  apply RoundTrips.build (fun schema => ⟨schema, media.extra⟩)
    (roundTrips_readSchema? counts sound.schema)
  · rw [sound.toJson_eq, ofJson, take, found, rest]
    dsimp only
    cases readSchema? (media.schema.map Schema.toJson) <;> rfl
  · intro back _
    rw [same, Json.sameMap_refl sound.extra, Bool.and_true]
  · intro back again
    rw [toJson, toJson, optional_congr _ again]
  · exact fun _ _ => Iff.rfl
  · exact fun _ _ _ => Iff.rfl

/-- A content, where enumerations count in some of the media types. -/
theorem roundTrips_readContent {counts : String → Bool} {content : Option Content}
    (sound : SoundPart ContentDistinct ContentSettled (ContentMentions counts) content) :
    RoundTrips sameContent (Option.map writeContent) (ContentMentions counts) content
      (readContent (content.map writeContent)) := by
  cases content with
  | none =>
      apply RoundTrips.of_eq rfl rfl
      rintro enums schema ⟨_, ⟨⟩, _⟩
  | some members =>
      rcases sound.maps members rfl with ⟨names, extras⟩
      have each : ∀ name media, (name, media) ∈ members → media.Sound := by
        intro name media present
        constructor
        · exact extras name media present
        · exact sound.settled members rfl name media present
        · intro schema found
          exact sound.mentioned _ schema ⟨members, rfl, name, media, present, found, rfl⟩
      have all := RoundTrips.members MediaType.ofJson names fun name media present =>
        (each name media present).roundTrips (counts name) name
      apply RoundTrips.build some all
      · rw [Option.map_some, writeContent, readContent]
        cases readEntries MediaType.ofJson (mapValues MediaType.toJson members) <;> rfl
      · exact fun back _ => rfl
      · intro back again
        rw [Option.map_some, Option.map_some, writeContent, writeContent, again]
      · simp [ContentMentions]
      · simp [ContentMentions]

/-! ## References and items -/

theorem RefOr.roundTrips {α : Type} {same : α → α → Bool} {write : α → Json}
    {mentions : Bool → Schema → α → Prop} {maps settled : α → Prop} {place : Place}
    {read : Members Json → Except Fault α} {value : RefOr α} (distinct : value.DistinctMaps maps)
    (apart : value.Settled settled)
    (each : ∀ inner, value = .item inner → ∃ members, write inner = .object members ∧
      Reference.ofMembers? members = none ∧
        RoundTrips same write mentions inner (read (withoutReference members))) :
    RoundTrips (RefOr.same same) (RefOr.toJson write)
      (fun enums schema value => value.Inline (mentions enums schema)) value
      (RefOr.ofJson place read (value.toJson write)) := by
  cases value with
  | reference target =>
      apply RoundTrips.of_eq
      · rw [toJson, Reference.toJson_eq apart distinct.1, ofJson, Reference.ofMembers?_cons apart]
      · exact Reference.same_refl distinct
      · exact fun _ _ inline => inline
  | item inner =>
      rcases each inner rfl with ⟨members, written, inline, all⟩
      apply RoundTrips.build RefOr.item all
      · rw [toJson, written, ofJson, inline]
        cases read (withoutReference members) <;> rfl
      · exact fun back _ => rfl
      · intro back again
        rw [toJson, toJson, again]
      · exact fun _ _ => Iff.rfl
      · exact fun _ _ _ => Iff.rfl

/-! ## Request bodies and responses -/

/-- What is written of an inline item is no reference, if nothing but what is left over can be. -/
theorem ofMembers?_eq_none_of_leftOver {settled : List String} {extra back : Members Json}
    (leftOver : LeftOver settled extra) (plain : ∀ key ∈ keys back, key ≠ "$ref") :
    Reference.ofMembers? (extra ++ back) = none := by
  have apart : "$ref" ∉ keys back := fun present => plain _ present rfl
  rw [Reference.ofMembers?_eq_none_iff]
  intro pointer found
  rw [get?_append, get?_eq_none_iff.mpr apart, Option.or_none] at found
  exact leftOver.inline pointer (mem_of_get?_eq_some found)

section AroundContent

variable {extra : Members Json} {content : Option Content} (leftOver : LeftOver ["content"] extra)
  (distinct : Distinct extra)

include leftOver distinct

theorem distinct_aroundContent : Distinct (extra ++ optional "content" writeContent content) := by
  refine distinct_append_iff.mpr ⟨distinct, distinct_optional _ _ _, fun key present inside => ?_⟩
  rw [(mem_keys_optional.mp inside).1] at present
  exact leftOver.keys "content" (by simp) present

theorem aroundContent_eq :
    aroundContent extra content = .object (extra ++ optional "content" writeContent content) :=
  congrArg Json.object (extend_eq_append (distinct_aroundContent leftOver distinct))

theorem get?_aroundContent :
    get? "content" (withoutReference (extra ++ optional "content" writeContent content)) =
      content.map writeContent := by
  rw [withoutReference, get?_moveToEnd (distinct_aroundContent leftOver distinct), get?_append,
    get?_eq_none_iff.mpr (leftOver.keys "content" (by simp)), Option.none_or, get?_optional,
    if_pos rfl]

theorem erase_aroundContent :
    erase "content" (withoutReference (extra ++ optional "content" writeContent content)) =
      extra := by
  have front := erase_of_not_mem (leftOver.keys "content" (by simp))
  have back := erase_optional "content" writeContent content
  unfold erase at front back ⊢
  rw [withoutReference, filter_moveToEnd (distinct_aroundContent leftOver distinct),
    List.filter_append, front, back, List.append_nil, leftOver.last]

omit distinct in
theorem ofMembers?_aroundContent :
    Reference.ofMembers? (extra ++ optional "content" writeContent content) = none := by
  apply ofMembers?_eq_none_of_leftOver leftOver
  intro key present
  rw [(mem_keys_optional.mp present).1]
  decide

end AroundContent

/-- A request body, or a reference to one. -/
theorem RequestBody.roundTrips {body : RefOr RequestBody}
    (sound : SoundPart (RefOr.DistinctMaps DistinctMaps) (RefOr.Settled Settled)
      (fun enums schema body => body.Inline (Mentions enums schema)) body) :
    RoundTrips (RefOr.same same) (RefOr.toJson toJson)
      (fun enums schema body => body.Inline (Mentions enums schema)) body
      (ofJson (body.toJson toJson)) := by
  apply RefOr.roundTrips sound.maps sound.settled
  rintro inner rfl
  rcases sound with ⟨⟨contentMaps, extraMaps⟩, ⟨contentSettled, leftOver⟩, mentioned⟩
  have content := roundTrips_readContent ⟨contentMaps, contentSettled, mentioned⟩
  refine ⟨_, aroundContent_eq leftOver extraMaps.1, ofMembers?_aroundContent leftOver, ?_⟩
  apply RoundTrips.build (fun content => ⟨content, inner.extra⟩) content
  · rw [ofMembers, take, get?_aroundContent leftOver extraMaps.1,
      erase_aroundContent leftOver extraMaps.1]
    dsimp only
    cases readContent (inner.content.map writeContent) <;> rfl
  · intro back _
    rw [same, Json.sameMap_refl extraMaps, Bool.and_true]
  · intro back again
    rw [toJson, toJson, aroundContent, aroundContent, optional_congr _ again]
  · exact fun _ _ => Iff.rfl
  · exact fun _ _ _ => Iff.rfl

/-- A response, or a reference to one. -/
theorem Response.roundTrips {response : RefOr Response}
    (sound : SoundPart (RefOr.DistinctMaps DistinctMaps) (RefOr.Settled Settled)
      (fun enums schema response => response.Inline (Mentions enums schema)) response) :
    RoundTrips (RefOr.same same) (RefOr.toJson toJson)
      (fun enums schema response => response.Inline (Mentions enums schema)) response
      (ofJson (response.toJson toJson)) := by
  apply RefOr.roundTrips sound.maps sound.settled
  rintro inner rfl
  rcases sound with ⟨⟨contentMaps, extraMaps⟩, ⟨contentSettled, leftOver⟩, mentioned⟩
  have content := roundTrips_readContent ⟨contentMaps, contentSettled, mentioned⟩
  refine ⟨_, aroundContent_eq leftOver extraMaps.1, ofMembers?_aroundContent leftOver, ?_⟩
  apply RoundTrips.build (fun content => ⟨content, inner.extra⟩) content
  · rw [ofMembers, take, get?_aroundContent leftOver extraMaps.1,
      erase_aroundContent leftOver extraMaps.1]
    dsimp only
    cases readContent (inner.content.map writeContent) <;> rfl
  · intro back _
    rw [same, Json.sameMap_refl extraMaps, Bool.and_true]
  · intro back again
    rw [toJson, toJson, aroundContent, aroundContent, optional_congr _ again]
  · exact fun _ _ => Iff.rfl
  · exact fun _ _ _ => Iff.rfl

end SchemaLift
