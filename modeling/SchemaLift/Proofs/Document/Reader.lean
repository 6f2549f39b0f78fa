import SchemaLift.Document.Format
import SchemaLift.Proofs.Document.AsRead
import SchemaLift.Proofs.Document.PathItems
import SchemaLift.Proofs.Schema.Distinct
import SchemaLift.Proofs.Yaml.Value

/-!
# What documents are read from

A document that is read from a value in which no object has a key twice is sound
(`Document.sound_of_ofJson`). In particular, a document that is read from a text has no map with a
key twice (`Document.distinctKeys_of_ofText`). So what is proved of documents with distinct keys
holds of every document that a text can give.

The reader goes through path items that contain path items. What it makes of a value follows from
what it makes of the values inside (`Json.induction`).
-/

namespace SchemaLift

/-- A part of a document that is as it is read, in which no map has a key twice, and that mentions
only schemas of which the same holds. -/
structure SoundPart {α : Type} (maps settled : α → Prop) (mentions : Bool → Schema → α → Prop)
    (value : α) : Prop where
  maps : maps value
  settled : settled value
  mentioned : ∀ enums schema, mentions enums schema value → schema.Sound

theorem Schema.sound_of_ofJson {value : Json} {schema : Schema} (distinct : value.DistinctKeys)
    (read : ofJson value = .ok schema) : schema.Sound :=
  ⟨asRead_of_ofJson distinct read, distinctKeys_of_ofJson distinct read⟩

/-! ## Lists and entries -/

theorem not_of_mem_keys_filter {taken : String → Bool} {members : Members Json} :
    ∀ key ∈ Members.keys (members.filter fun member => !taken member.1), taken key = false := by
  intro key present
  rcases Members.mem_keys_iff.mp present with ⟨value, inside⟩
  simpa using (List.mem_filter.mp inside).2

section Entries

variable {α : Type} {read : String → Json → Except Fault α} {holds : α → Prop}

theorem distinct_of_readEntries {entries : Members Json} {members : Members α}
    (each : ∀ name value entry, (name, value) ∈ entries → read name value = .ok entry →
      holds entry)
    (names : Members.Distinct entries) (result : readEntries read entries = .ok members) :
    Members.Distinct members ∧ ∀ name entry, (name, entry) ∈ members → holds entry := by
  have all := readEntries_eq_ok_iff.mp result
  constructor
  · exact all.distinct names
  · intro name entry present
    rcases all.exists_left present with ⟨value, inside, own⟩
    exact each name value entry inside own

theorem distinct_of_readIfObject {value : Option Json} {members : Members α}
    (each : ∀ name value entry, value.DistinctKeys → read name value = .ok entry → holds entry)
    (distinct : ∀ inner, value = some inner → inner.DistinctKeys)
    (result : readIfObject read value = .ok members) :
    Members.Distinct members ∧ ∀ name entry, (name, entry) ∈ members → holds entry := by
  unfold readIfObject at result
  split at result
  · next entries =>
      rcases (Json.distinctMap_iff_distinctKeys entries).mpr (distinct _ rfl) with ⟨names, values⟩
      apply distinct_of_readEntries _ names result
      exact fun name value entry present => each name value entry (values name value present)
  · cases result
    exact ⟨List.nodup_nil, by simp⟩

end Entries

/-! ## Contents -/

theorem sound_of_readSchema? {value : Option Json} {schema : Option Schema}
    (distinct : ∀ inner, value = some inner → inner.DistinctKeys)
    (read : readSchema? value = .ok schema) :
    ∀ found, schema = some found → found.Sound := by
  cases value with
  | none =>
      cases read
      simp
  | some inner =>
      rcases bind_eq_ok_iff.mp read with ⟨own, found, same⟩
      cases pure_eq_ok_iff.mp same
      rintro _ ⟨⟩
      exact Schema.sound_of_ofJson (distinct inner rfl) found

/-- A media type of which no map has a key twice, and that leaves over no schema. -/
structure MediaType.Sound (media : MediaType) : Prop where
  extra : Json.DistinctMap media.extra
  settled : "schema" ∉ Members.keys media.extra
  schema : ∀ schema, media.schema = some schema → schema.Sound

theorem MediaType.sound_of_ofJson {name : String} {value : Json} {media : MediaType}
    (distinct : value.DistinctKeys) (read : ofJson name value = .ok media) : media.Sound := by
  cases value with
  | object members =>
      have keys := (Json.distinctMap_iff_distinctKeys members).mpr distinct
      rcases bind_eq_ok_iff.mp read with ⟨schema, own, same⟩
      cases pure_eq_ok_iff.mp same
      constructor
      · exact keys.erase "schema"
      · exact Members.not_mem_keys_erase "schema" members
      · exact sound_of_readSchema? (fun _ => keys.get?) own
  | null =>
      cases read
      exact ⟨Json.distinctMap_nil, by simp, by simp⟩
  | _ => cases read

/-- Whichever enumerations count, a content that is read is sound. -/
theorem sound_of_readContent (counts : String → Bool) {value : Option Json}
    {content : Option Content} (distinct : ∀ inner, value = some inner → inner.DistinctKeys)
    (read : readContent value = .ok content) :
    SoundPart ContentDistinct ContentSettled (ContentMentions counts) content := by
  have none : SoundPart ContentDistinct ContentSettled (ContentMentions counts) none := by
    constructor
    · rintro _ ⟨⟩
    · rintro _ ⟨⟩
    · rintro enums schema ⟨_, ⟨⟩, _⟩
  unfold readContent at read
  split at read
  · next entries =>
      rcases bind_eq_ok_iff.mp read with ⟨members, inside, same⟩
      cases pure_eq_ok_iff.mp same
      rcases (Json.distinctMap_iff_distinctKeys entries).mpr (distinct _ rfl) with ⟨keys, values⟩
      rcases distinct_of_readEntries (fun name value media present =>
        MediaType.sound_of_ofJson (values name value present)) keys inside with ⟨names, each⟩
      constructor
      · rintro _ ⟨⟩
        exact ⟨names, fun name media present => (each name media present).extra⟩
      · rintro _ ⟨⟩ name media present
        exact (each name media present).settled
      · rintro enums schema ⟨_, ⟨⟩, name, media, present, found, _⟩
        exact (each name media present).schema schema found
  · cases read
    exact none
  · cases read
  · cases read
    exact none

/-! ## Parameters, request bodies and responses -/

theorem RefOr.sound_of_ofJson {α : Type} {place : Place}
    {read : Members Json → Except Fault α} {maps settled : α → Prop}
    {mentions : Bool → Schema → α → Prop}
    (each : ∀ members item, Json.DistinctMap members → Reference.ofMembers? members = none →
      Members.moveToEnd "$ref" members = members → read members = .ok item →
      SoundPart maps settled mentions item)
    {value : Json} {result : RefOr α} (distinct : value.DistinctKeys)
    (found : RefOr.ofJson place read value = .ok result) :
    SoundPart (RefOr.DistinctMaps maps) (RefOr.Settled settled)
      (fun enums schema value => value.Inline (mentions enums schema)) result := by
  cases value with
  | object members =>
      have keys := (Json.distinctMap_iff_distinctKeys members).mpr distinct
      rw [ofJson] at found
      split at found
      · next target reference =>
          cases found
          constructor
          · exact Reference.distinct_siblings reference keys
          · exact Reference.not_mem_siblings reference
          · exact fun _ _ inline => inline.elim
      · next inline =>
          rcases bind_eq_ok_iff.mp found with ⟨item, inside, same⟩
          cases pure_eq_ok_iff.mp same
          have moved : Reference.ofMembers? (withoutReference members) = none := by
            rw [Reference.ofMembers?_eq_none_iff] at inline ⊢
            rwa [withoutReference, Members.get?_moveToEnd keys.1]
          have all := each _ item (keys.moveToEnd "$ref") moved
            (Members.moveToEnd_moveToEnd keys.1 "$ref") inside
          exact ⟨all.maps, all.settled, all.mentioned⟩
  | _ => cases found

/-- What a reader keeps of the members of an inline item. -/
theorem leftOver_filter {members : Members Json} (distinct : Members.Distinct members)
    (inline : Reference.ofMembers? members = none)
    (last : Members.moveToEnd "$ref" members = members) {settled : List String}
    {keep : String × Json → Bool}
    (dropped : ∀ key value, key ∈ settled → keep (key, value) = false) :
    LeftOver settled (members.filter keep) := by
  constructor
  · intro key known present
    rcases Members.mem_keys_iff.mp present with ⟨value, inside⟩
    have kept := (List.mem_filter.mp inside).2
    rw [dropped key value known] at kept
    cases kept
  · intro pointer present
    have found := distinct.get?_eq_some (List.mem_of_mem_filter present)
    exact Reference.ofMembers?_eq_none_iff.mp inline pointer found
  · rw [← Members.filter_moveToEnd distinct, last]

namespace Parameter

/-- Whether a member is left over when a parameter has been read. -/
def leaves (member : String × Json) : Bool :=
  member.1 != "schema" && member.1 != "content" &&
    !(["name", "in"].contains member.1 && member.2.string?.isSome)

/-- A parameter is read by lookups and a filter. -/
theorem ofMembers_eq {members : Members Json} (distinct : Members.Distinct members) :
    ofMembers members = (do
      let schema ← readSchema? (Members.get? "schema" members)
      let content ← readContent (Members.get? "content" members)
      pure
        { name := ((Members.get? "name" members).bind Json.string?).getD ""
          location := ((Members.get? "in" members).bind Json.string?).getD ""
          schema, content, extra := members.filter leaves }) := by
  have others : ∀ {key : String} {keep : String × Json → Bool},
      (∀ value, keep (key, value) = true) →
        Members.get? key (members.filter keep) = Members.get? key members := by
    intro key keep kept
    rw [distinct.get?_filter]
    cases Members.get? key members with
    | none => rfl
    | some value => exact Option.filter_some_pos (kept value)
  rw [ofMembers, Members.takeAs_eq distinct]
  simp only [Members.take]
  rw [Members.takeAs_eq (distinct.filter _)]
  simp only [Members.erase, List.filter_filter]
  rw [others (by simp), others (by simp), others (by simp)]
  congr 1
  funext schema
  congr 1
  funext content
  congr 2
  apply List.filter_congr
  intro member _
  simp only [leaves, List.contains_cons, List.contains_nil]
  grind

theorem sound_of_ofMembers {members : Members Json} {parameter : Parameter}
    (distinct : Json.DistinctMap members) (inline : Reference.ofMembers? members = none)
    (last : Members.moveToEnd "$ref" members = members) (read : ofMembers members = .ok parameter) :
    SoundPart DistinctMaps Settled Mentions parameter := by
  rw [ofMembers_eq distinct.1] at read
  rcases bind_eq_ok_iff.mp read with ⟨schema, own, read⟩
  rcases bind_eq_ok_iff.mp read with ⟨content, inside, read⟩
  cases pure_eq_ok_iff.mp read
  have schemas := sound_of_readSchema? (fun _ => distinct.get?) own
  have contents := sound_of_readContent (fun _ => true) (fun _ => distinct.get?) inside
  have untyped : ∀ key ∈ ["name", "in"], ∀ value, (key, value) ∈ members.filter leaves →
      ((Members.get? key members).bind Json.string?).getD "" = "" ∧ value.string? = none := by
    intro key known value present
    rcases List.mem_filter.mp present with ⟨there, kept⟩
    have none : value.string? = none := by
      have listed : ["name", "in"].contains key = true := by simpa using known
      simp only [leaves, Bool.and_eq_true, Bool.not_eq_true', listed, Bool.true_and] at kept
      simpa using kept.2
    rw [distinct.1.get?_eq_some there]
    simp [none]
  constructor
  · exact ⟨contents.maps, distinct.filter _⟩
  · constructor
    · exact contents.settled
    · apply leftOver_filter distinct.1 inline last
      intro key value known
      rcases List.mem_pair.mp known with rfl | rfl <;> simp [leaves]
    · exact untyped "name" (by simp)
    · exact untyped "in" (by simp)
  · rintro enums schema (⟨found, _⟩ | mentioned)
    · exact schemas schema found
    · exact contents.mentioned enums schema mentioned

theorem sound_of_listOf {value : Option Json} {parameters : List (RefOr Parameter)}
    (distinct : ∀ inner, value = some inner → inner.DistinctKeys)
    (read : listOf value = .ok parameters) :
    SoundPart
      (fun parameters => ∀ parameter ∈ parameters, RefOr.DistinctMaps DistinctMaps parameter)
      (fun parameters => ∀ parameter ∈ parameters, RefOr.Settled Settled parameter)
      ParametersMention parameters := by
  have none : SoundPart
      (fun parameters => ∀ parameter ∈ parameters, RefOr.DistinctMaps DistinctMaps parameter)
      (fun parameters => ∀ parameter ∈ parameters, RefOr.Settled Settled parameter)
      ParametersMention [] := by
    constructor
    · simp
    · simp
    · rintro enums schema ⟨parameter, ⟨⟩, _⟩
  unfold listOf at read
  split at read
  · next elements =>
      have all : ∀ parameter ∈ parameters, SoundPart (RefOr.DistinctMaps DistinctMaps)
          (RefOr.Settled Settled) (fun enums schema value => value.Inline (Mentions enums schema))
          parameter := by
        intro parameter present
        rcases exists_of_forall₂ (mapM_eq_ok_iff.mp read) present with ⟨value, inside, own⟩
        exact RefOr.sound_of_ofJson (fun _ _ => sound_of_ofMembers)
          ((distinct _ rfl).part inside) own
      constructor
      · exact fun parameter present => (all parameter present).maps
      · exact fun parameter present => (all parameter present).settled
      · rintro enums schema ⟨parameter, present, inline⟩
        exact (all parameter present).mentioned enums schema inline
  · cases read
    exact none
  · cases read
  · cases read
    exact none

end Parameter

theorem RequestBody.sound_of_ofJson {value : Json} {body : RefOr RequestBody}
    (distinct : value.DistinctKeys) (read : ofJson value = .ok body) :
    SoundPart (RefOr.DistinctMaps DistinctMaps) (RefOr.Settled Settled)
      (fun enums schema body => body.Inline (Mentions enums schema)) body := by
  apply RefOr.sound_of_ofJson _ distinct read
  intro members item keys inline last inside
  rcases bind_eq_ok_iff.mp inside with ⟨content, found, same⟩
  cases pure_eq_ok_iff.mp same
  have contents := sound_of_readContent Flatten.isForm (fun _ => keys.get?) found
  exact ⟨⟨contents.maps, keys.erase "content"⟩,
    ⟨contents.settled, leftOver_filter keys.1 inline last (by simp)⟩, contents.mentioned⟩

theorem Response.sound_of_ofJson {value : Json} {response : RefOr Response}
    (distinct : value.DistinctKeys) (read : ofJson value = .ok response) :
    SoundPart (RefOr.DistinctMaps DistinctMaps) (RefOr.Settled Settled)
      (fun enums schema response => response.Inline (Mentions enums schema)) response := by
  apply RefOr.sound_of_ofJson _ distinct read
  intro members item keys inline last inside
  rcases bind_eq_ok_iff.mp inside with ⟨content, found, same⟩
  cases pure_eq_ok_iff.mp same
  have contents := sound_of_readContent (fun _ => false) (fun _ => keys.get?) found
  exact ⟨⟨contents.maps, keys.erase "content"⟩,
    ⟨contents.settled, leftOver_filter keys.1 inline last (by simp)⟩, contents.mentioned⟩

/-! ## Path items -/

/-- A path item that is sound at any depth. -/
abbrev PathItem.Sound (item : PathItem) : Prop :=
  SoundPart DistinctMaps Settled Mentions item

/-- An operation that is sound at any depth. -/
structure Operation.Sound (operation : Operation) : Prop
    extends SoundPart DistinctMaps Settled Mentions operation where
  inner : ∀ other ∈ operation.inner, other.Sound

/-- A callback that is sound at any depth. -/
structure Callback.Sound (callback : RefOr Callback) : Prop where
  maps : callback.DistinctMaps fun callback => Members.Distinct callback.expressions
  settled : callback.Settled Callback.Settled
  inner : ∀ own, callback = .item own → ∀ path item, (path, item) ∈ own.expressions →
    item.Sound

/-- Whatever is read from a value, as a path item or a part of one, is sound. -/
structure PathItem.ReadsSound (value : Json) : Prop where
  item : ∀ place path item, PathItem.ofJson place path value = .ok item → item.Sound
  operation : ∀ path method operation, Operation.ofJson path method value = .ok operation →
    operation.Sound
  callback : ∀ callback, Callback.ofJson value = .ok callback → Callback.Sound callback
  callbacks : ∀ entries callbacks, value = .object entries → callbacksOf entries = .ok callbacks →
    Members.Distinct callbacks ∧
      ∀ name callback, (name, callback) ∈ callbacks → Callback.Sound callback

section Inside

variable {members : Members Json} (distinct : Json.DistinctMap members)
  (each : ∀ name value, (name, value) ∈ members → PathItem.ReadsSound value)

include distinct each

theorem Operation.sound_of_object {path : String} {method : Method} {operation : Operation}
    (read : ofJson path method (.object members) = .ok operation) : operation.Sound := by
  rw [ofJson_object_eq] at read
  rcases bind_eq_ok_iff.mp read with ⟨parameters, listed, read⟩
  rcases bind_eq_ok_iff.mp read with ⟨requestBody, sent, read⟩
  rcases bind_eq_ok_iff.mp read with ⟨responses, answers, read⟩
  rcases bind_eq_ok_iff.mp read with ⟨callbacks, called, read⟩
  cases pure_eq_ok_iff.mp read
  have parametersAll := Parameter.sound_of_listOf (fun _ => distinct.get?) listed
  have bodies : ∀ body, requestBody = some body → SoundPart
      (RefOr.DistinctMaps RequestBody.DistinctMaps) (RefOr.Settled RequestBody.Settled)
      (fun enums schema body => body.Inline (RequestBody.Mentions enums schema)) body := by
    rintro body rfl
    rcases exists_of_optionMapM sent with ⟨value, found, own⟩
    exact RequestBody.sound_of_ofJson (distinct.get? found) own
  rcases distinct_of_readIfObject (fun _ _ _ => Response.sound_of_ofJson)
    (fun _ => distinct.get?) answers with ⟨statuses, responsesAll⟩
  have callbacksAll : Members.Distinct callbacks ∧
      ∀ name callback, (name, callback) ∈ callbacks → Callback.Sound callback := by
    unfold readIfObject at called
    split at called
    · next entries found =>
        have inside := each _ _ (Members.mem_of_get?_eq_some found)
        exact inside.callbacks entries callbacks rfl ((callbacksOf_eq entries).trans called)
    · cases called
      exact ⟨List.nodup_nil, by simp⟩
  rcases callbacksAll with ⟨names, callbacksAll⟩
  refine ⟨⟨?_, ?_, ?_⟩, ?_⟩
  · exact ⟨parametersAll.maps, fun body found => (bodies body found).maps, statuses,
      fun status response present => (responsesAll status response present).maps, names,
      fun name callback present => (callbacksAll name callback present).maps, distinct.filter _⟩
  · constructor
    · exact parametersAll.settled
    · exact fun body found => (bodies body found).settled
    · exact fun status response present => (responsesAll status response present).settled
    · exact fun name callback present => (callbacksAll name callback present).settled
    · intro key known present
      rcases Members.mem_keys_iff.mp present with ⟨value, inside⟩
      have other := (List.mem_filter.mp inside).2
      simp only [Bool.not_eq_true', List.contains_eq_mem, decide_eq_false_iff_not] at other
      exact other known
  · intro enums schema mentioned
    cases mentioned with
    | parameters inside => exact parametersAll.mentioned enums schema inside
    | requestBody present inside => exact (bodies _ present).mentioned enums schema inside
    | response present inside => exact (responsesAll _ _ present).mentioned enums schema inside
  · intro other inside
    rcases Operation.exists_of_mem_inner inside with ⟨name, callback, path, present, listed⟩
    exact (callbacksAll name _ present).inner callback rfl path other listed

theorem PathItem.sound_of_object {place : Place} {path : String} {item : PathItem}
    (read : ofJson place path (.object members) = .ok item) : item.Sound := by
  rw [ofJson_object_eq] at read
  rcases bind_eq_ok_iff.mp read with ⟨parameters, listed, read⟩
  rcases bind_eq_ok_iff.mp read with ⟨operations, inside, read⟩
  cases pure_eq_ok_iff.mp read
  have parametersAll := Parameter.sound_of_listOf (fun _ => distinct.get?) listed
  rcases of_operationsIn inside with ⟨methods, found⟩
  have operationsAll : ∀ method operation, (method, operation) ∈ operations →
      operation.Sound := by
    intro method operation present
    rcases found method operation present with ⟨value, there, own⟩
    have reads := each _ _ (Members.mem_of_get?_eq_some there)
    exact reads.operation path method operation own
  constructor
  · refine DistinctMaps.intro parametersAll.maps ?_ (distinct.filter _) ?_
    · exact fun method operation present => (operationsAll method operation present).maps
    · intro other inside
      rcases PathItem.exists_of_mem_inner inside with ⟨method, operation, present, within⟩
      exact ((operationsAll method operation present).inner other within).maps
  · refine Settled.intro parametersAll.settled methods ?_ ?_ ?_
    · exact fun method operation present => (operationsAll method operation present).settled
    · intro key known present
      rcases Members.mem_keys_iff.mp present with ⟨value, inside⟩
      have other := (List.mem_filter.mp inside).2
      simp only [Bool.and_eq_true, decide_eq_true_eq, Bool.not_eq_true', List.contains_eq_mem,
        decide_eq_false_iff_not] at other
      exact (List.mem_cons.mp known).elim other.1 other.2
    · intro other inside
      rcases PathItem.exists_of_mem_inner inside with ⟨method, operation, present, within⟩
      exact ((operationsAll method operation present).inner other within).settled
  · intro enums schema mentioned
    cases mentioned with
    | parameters inside => exact parametersAll.mentioned enums schema inside
    | operation present inside => exact (operationsAll _ _ present).mentioned enums schema inside
    | inner inside deeper =>
        rcases PathItem.exists_of_mem_inner inside with ⟨method, operation, present, within⟩
        have all := (operationsAll method operation present).inner _ within
        exact all.mentioned enums schema deeper

theorem Callback.sound_of_object {callback : RefOr Callback}
    (read : ofJson (.object members) = .ok callback) : Sound callback := by
  rw [ofJson_object_eq distinct.1, RefOr.ofJson] at read
  split at read
  · next target found =>
      cases read
      constructor
      · exact Reference.distinct_siblings found distinct
      · exact Reference.not_mem_siblings found
      · rintro _ ⟨⟩
  · rcases bind_eq_ok_iff.mp read with ⟨_, inside, read⟩
    cases pure_eq_ok_iff.mp read
    have all := related_of_ofMembers inside
    constructor
    · exact all.distinct (distinct.1.moveToEnd "$ref")
    · intro others rest split
      rw [all.keys_eq] at split
      exact Members.eq_nil_of_keys_moveToEnd distinct.1 split
    · rintro _ ⟨⟩ path item present
      rcases all.exists_left present with ⟨value, there, own⟩
      exact (each path value ((Members.mem_moveToEnd distinct.1).mp there)).item _ path item own

theorem Callback.sound_of_entries {callbacks : Members (RefOr Callback)}
    (read : callbacksOf members = .ok callbacks) :
    Members.Distinct callbacks ∧
      ∀ name callback, (name, callback) ∈ callbacks → Sound callback := by
  rw [callbacksOf_eq] at read
  apply distinct_of_readEntries _ distinct.1 read
  exact fun name value callback present => (each name value present).callback callback

end Inside

theorem PathItem.readsSound {value : Json} (distinct : value.DistinctKeys) :
    ReadsSound value := by
  induction value using Json.induction with
  | step value ih =>
      have below := fun part inside => ih part inside (distinct.part inside)
      cases value with
      | object members =>
          have keys := (Json.distinctMap_iff_distinctKeys members).mpr distinct
          have each : ∀ name value, (name, value) ∈ members → ReadsSound value :=
            fun name value present => below value (List.mem_map_of_mem present)
          constructor
          · exact fun place path item => sound_of_object keys each
          · exact fun path method operation => Operation.sound_of_object keys each
          · exact fun callback => Callback.sound_of_object keys each
          · rintro _ callbacks ⟨⟩
            exact Callback.sound_of_entries keys each
      | _ =>
          constructor
          · rintro place path item ⟨⟩
          · rintro path method operation ⟨⟩
          · rintro callback ⟨⟩
          · rintro entries callbacks ⟨⟩

/-! ## Whole documents -/

/-- Components that are sound at any depth. -/
structure Components.Sound (components : Components) : Prop where
  names : Members.Distinct components.schemas
  schemas : ∀ name schema, (name, schema) ∈ components.schemas → schema.Sound
  bodyNames : Members.Distinct components.requestBodies
  requestBodies : ∀ name body, (name, body) ∈ components.requestBodies →
    SoundPart (RefOr.DistinctMaps RequestBody.DistinctMaps) (RefOr.Settled RequestBody.Settled)
      (fun enums schema body => body.Inline (RequestBody.Mentions enums schema)) body
  responseNames : Members.Distinct components.responses
  responses : ∀ name response, (name, response) ∈ components.responses →
    SoundPart (RefOr.DistinctMaps Response.DistinctMaps) (RefOr.Settled Response.Settled)
      (fun enums schema response => response.Inline (Response.Mentions enums schema)) response
  extra : Json.DistinctMap components.extra
  settled : ∀ key ∈ Members.keys components.extra, isRead key = false

namespace Components

theorem sound_default : Sound {} :=
  ⟨List.nodup_nil, by simp, List.nodup_nil, by simp, List.nodup_nil, by simp, Json.distinctMap_nil,
    by simp⟩

theorem sound_of_ofMembers {members : Members Json} {components : Components}
    (distinct : Json.DistinctMap members) (read : ofMembers members = .ok components) :
    components.Sound := by
  rcases bind_eq_ok_iff.mp read with ⟨schemas, first, read⟩
  rcases bind_eq_ok_iff.mp read with ⟨requestBodies, second, read⟩
  rcases bind_eq_ok_iff.mp read with ⟨responses, third, read⟩
  cases pure_eq_ok_iff.mp read
  have keys : ∀ key inner, Members.get? key members = some inner → inner.DistinctKeys :=
    fun key inner => distinct.get?
  rcases distinct_of_readIfObject (fun _ _ _ own found =>
    Schema.sound_of_ofJson own (mapError_eq_ok_iff.mp found)) (keys _) first with
    ⟨names, schemas⟩
  rcases distinct_of_readIfObject (fun _ _ _ => RequestBody.sound_of_ofJson) (keys _) second
    with ⟨bodyNames, bodies⟩
  rcases distinct_of_readIfObject (fun _ _ _ => Response.sound_of_ofJson) (keys _) third
    with ⟨responseNames, responses⟩
  exact ⟨names, schemas, bodyNames, bodies, responseNames, responses, distinct.filter _,
    not_of_mem_keys_filter⟩

end Components

namespace Document

theorem sound_of_pathsOf {members : Members Json} {paths : Members PathItem}
    (distinct : Json.DistinctMap members) (read : pathsOf members = .ok paths) :
    Members.Distinct paths ∧ ∀ path item, (path, item) ∈ paths → item.Sound := by
  unfold pathsOf at read
  split at read
  · next entries found =>
      have keys := distinct.value found
      apply distinct_of_readEntries _ keys.1 read
      intro path value item present
      exact (PathItem.readsSound (keys.2 path value present)).item _ path item
  · cases read
    exact ⟨List.nodup_nil, by simp⟩
  · cases read
  · cases read
    exact ⟨List.nodup_nil, by simp⟩

theorem sound_of_componentsOf {members : Members Json} {components : Components}
    (distinct : Json.DistinctMap members) (read : componentsOf members = .ok components) :
    components.Sound := by
  unfold componentsOf at read
  split at read
  · next entries found => exact Components.sound_of_ofMembers (distinct.value found) read
  · cases read
    exact Components.sound_default
  · cases read
  · cases read
    exact Components.sound_default

theorem startsWith_of_versionOf {members : Members Json} {version : String}
    (read : versionOf members = .ok version) : Text.startsWith "3." version = true := by
  have known : ∀ text : String,
      (if Text.startsWith "3." text then pure text
        else throw (.structure (.unsupportedVersion text)) : Except ReadError String) =
          .ok version → Text.startsWith "3." version = true := by
    intro text read
    split at read
    · next known =>
        cases pure_eq_ok_iff.mp read
        exact known
    · cases read
  unfold versionOf at read
  split at read
  · exact known _ read
  · exact known _ read
  · cases read

/-- A document that is read from a value in which no object has a key twice is sound. -/
theorem sound_of_ofJson {value : Json} {document : Document} (distinct : value.DistinctKeys)
    (read : ofJson value = .ok document) : document.Sound := by
  cases value with
  | object members =>
      have keys := (Json.distinctMap_iff_distinctKeys members).mpr distinct
      rw [ofJson] at read
      rcases bind_eq_ok_iff.mp read with ⟨openapi, version, read⟩
      rcases bind_eq_ok_iff.mp read with ⟨paths, listed, read⟩
      rcases bind_eq_ok_iff.mp read with ⟨components, inside, read⟩
      cases pure_eq_ok_iff.mp read
      rcases sound_of_pathsOf keys (mapError_eq_ok_iff.mp listed) with ⟨names, items⟩
      have all := sound_of_componentsOf keys (mapError_eq_ok_iff.mp inside)
      constructor
      · exact ⟨startsWith_of_versionOf version,
          fun path item present => (items path item present).settled,
          fun name body present => (all.requestBodies name body present).settled,
          fun name response present => (all.responses name response present).settled, all.settled,
          not_of_mem_keys_filter⟩
      · exact ⟨names, fun path item present => (items path item present).maps, all.bodyNames,
          fun name body present => (all.requestBodies name body present).maps, all.responseNames,
          fun name response present => (all.responses name response present).maps, all.extra,
          keys.filter _⟩
      · intro enums schema mentioned
        cases mentioned with
        | path present within => exact (items _ _ present).mentioned enums schema within
        | requestBody present within =>
            exact (all.requestBodies _ _ present).mentioned enums schema within
        | response present within =>
            exact (all.responses _ _ present).mentioned enums schema within
      · exact all.names
      · exact all.schemas
  | _ => cases read

/-- A document that is read from a value in which no object has a key twice has no map with a key
twice. -/
theorem distinctKeys_of_ofJson {value : Json} {document : Document} (distinct : value.DistinctKeys)
    (read : ofJson value = .ok document) : document.DistinctKeys :=
  (sound_of_ofJson distinct read).distinctKeys

/-- A document that is read from a text has no map with a key twice. -/
theorem distinctKeys_of_ofText {text : String} {document : Document}
    (read : ofText text = .ok document) : document.DistinctKeys := by
  rw [ofText] at read
  split at read
  · next value found => exact distinctKeys_of_ofJson (Yaml.distinctKeys_of_toJson? found) read
  · cases read

end Document

end SchemaLift
