import SchemaLift.Proofs.Document.Items

/-!
# Documents, written and read again

A document is read from what is written of it as an equal document exactly when no node of its
schemas is degenerate (`Document.exists_of_regular`, `Document.regular_of_same`). Then its component
schemas are read as they were, and the same is written of what is read.
-/

namespace SchemaLift

open Members

/-! ## Components -/

theorem Schema.sameMap_eq (left right : Members Schema) :
    Schema.sameMap left right = Members.same Schema.same left right := by
  rw [Bool.eq_iff_iff, Schema.sameMap, Members.same_iff_matches, Bool.and_eq_true, beq_iff_eq,
    Schema.sameProperties_iff]
  rfl

namespace Components

/-- What is written of components. -/
def written (components : Components) : Members Json :=
  unlessNone "schemas" (mapValues Schema.toJson components.schemas) ++
    unlessNone "responses" (mapValues (RefOr.toJson Response.toJson) components.responses) ++
    components.extra ++
    unlessNone "requestBodies"
      (mapValues (RefOr.toJson RequestBody.toJson) components.requestBodies)

section Written

variable {components : Components} (settled : ∀ key ∈ keys components.extra, isRead key = false)

include settled

theorem toMembers_eq (distinct : Distinct components.extra) :
    components.toMembers = components.written := by
  have read := keys_unlessNone_sublist
  have front : (keys (unlessNone "schemas" (mapValues Schema.toJson components.schemas) ++
      unlessNone "responses"
        (mapValues (RefOr.toJson Response.toJson) components.responses))).Sublist
        ["schemas", "responses"] := by
    rw [keys_append]
    exact (read "schemas" _).append (read "responses" _)
  have back := read "requestBodies"
    (mapValues (RefOr.toJson RequestBody.toJson) components.requestBodies)
  have middle : Distinct (unlessNone "schemas" (mapValues Schema.toJson components.schemas) ++
      unlessNone "responses" (mapValues (RefOr.toJson Response.toJson) components.responses) ++
      components.extra) := by
    refine distinct_append_iff.mpr
      ⟨(by decide : ["schemas", "responses"].Nodup).sublist front, distinct, ?_⟩
    intro key present extra
    have other := settled key extra
    rcases List.mem_pair.mp (front.subset present) with rfl | rfl <;> cases other
  have whole : Distinct components.written := by
    refine distinct_append_iff.mpr ⟨middle, (List.nodup_singleton _).sublist back, ?_⟩
    intro key present last
    obtain rfl := List.mem_singleton.mp (back.subset last)
    rw [keys_append, List.mem_append] at present
    rcases present with early | extra
    · exact absurd (front.subset early) (by decide)
    · cases settled _ extra
  rw [toMembers, Schema.toMembers_eq, extend_eq_append middle]
  exact extend_eq_append whole

theorem not_mem_extra (key : String) (read : isRead key = true) : key ∉ keys components.extra := by
  intro present
  rw [settled key present] at read
  cases read

theorem extra_written :
    (components.written.filter fun member => !isRead member.1) = components.extra := by
  have dropped : ∀ key entries, isRead key = true →
      ((unlessNone key entries).filter fun member => !isRead member.1) = [] := by
    intro key entries read
    apply List.filter_eq_nil_iff.mpr
    intro member present
    have same := (keys_unlessNone_sublist key entries).subset (mem_keys_of_mem present)
    rw [List.mem_singleton.mp same, read]
    simp
  have kept : (components.extra.filter fun member => !isRead member.1) = components.extra := by
    apply List.filter_eq_self.mpr
    intro member present
    rw [settled _ (mem_keys_of_mem present)]
    rfl
  rw [written, List.filter_append, List.filter_append, List.filter_append, kept,
    dropped _ _ (by decide), dropped _ _ (by decide), dropped _ _ (by decide)]
  simp

/-- Components are read from what is written of them, up to what they hold. -/
theorem ofMembers_written :
    ofMembers components.written = (do
      let schemas ← readEntries schemaOf (mapValues Schema.toJson components.schemas)
      let requestBodies ← readEntries (fun _ => RequestBody.ofJson)
        (mapValues (RefOr.toJson RequestBody.toJson) components.requestBodies)
      let responses ← readEntries (fun _ => Response.ofJson)
        (mapValues (RefOr.toJson Response.toJson) components.responses)
      pure { components with schemas, requestBodies, responses }) := by
  have schemas : get? "schemas" components.written =
      get? "schemas" (unlessNone "schemas" (mapValues Schema.toJson components.schemas)) := by
    have extra := get?_eq_none_iff.mpr (not_mem_extra settled "schemas" (by decide))
    simp [written, get?_append, extra]
  have responses : get? "responses" components.written = get? "responses"
      (unlessNone "responses" (mapValues (RefOr.toJson Response.toJson) components.responses)) := by
    have extra := get?_eq_none_iff.mpr (not_mem_extra settled "responses" (by decide))
    simp [written, get?_append, extra]
  have requestBodies : get? "requestBodies" components.written = get? "requestBodies"
      (unlessNone "requestBodies"
        (mapValues (RefOr.toJson RequestBody.toJson) components.requestBodies)) := by
    have extra := get?_eq_none_iff.mpr (not_mem_extra settled "requestBodies" (by decide))
    simp [written, get?_append, extra]
  rw [ofMembers, schemas, responses, requestBodies, extra_written settled,
    readIfObject_get?_unlessNone, readIfObject_get?_unlessNone, readIfObject_get?_unlessNone]

end Written

end Components

/-! ## Documents -/

namespace Document

/-- What is written of a document. -/
def written (document : Document) : Members Json :=
  ("openapi", .string document.openapi) :: document.extra ++
    (("paths", .object (mapValues PathItem.toJson document.paths)) ::
      unlessNone "components" document.components.written)

section Written

variable {document : Document} (settled : document.Settled)

include settled

theorem not_mem_extra (key : String) (read : isRead key = true) : key ∉ keys document.extra := by
  intro present
  rw [settled.extra key present] at read
  cases read

omit settled in
theorem keys_parts_sublist (document : Document) :
    (keys (("paths", Json.object (mapValues PathItem.toJson document.paths)) ::
      unlessNone "components" document.components.written)).Sublist ["paths", "components"] :=
  (keys_unlessNone_sublist "components" document.components.written).cons_cons "paths"

theorem toJson_eq (distinct : document.DistinctMaps) :
    document.toJson = .object document.written := by
  have parts := keys_parts_sublist document
  have front : Distinct (("openapi", Json.string document.openapi) :: document.extra) :=
    List.nodup_cons.mpr ⟨not_mem_extra settled "openapi" (by decide), distinct.extra.1⟩
  have whole : Distinct document.written := by
    refine distinct_append_iff.mpr
      ⟨front, (by decide : ["paths", "components"].Nodup).sublist parts, ?_⟩
    intro key present part
    have read : isRead key = true := by
      rcases List.mem_pair.mp (parts.subset part) with rfl | rfl <;> decide
    rcases List.mem_cons.mp present with same | extra
    · rw [same] at part
      exact absurd (parts.subset part) (show "openapi" ∉ ["paths", "components"] by decide)
    · exact not_mem_extra settled key read extra
  rw [toJson, itemMembers_eq,
    Components.toMembers_eq settled.componentsExtra distinct.componentsExtra.1,
    extend_eq_append (show Distinct ([_] ++ document.extra) from front)]
  exact congrArg Json.object (extend_eq_append whole)

theorem extra_written :
    (document.written.filter fun member => !isRead member.1) = document.extra := by
  have front : (document.extra.filter fun member => !isRead member.1) = document.extra := by
    apply List.filter_eq_self.mpr
    intro member present
    rw [settled.extra _ (mem_keys_of_mem present)]
    rfl
  have back : ((unlessNone "components" document.components.written).filter fun member =>
      !isRead member.1) = [] := by
    apply List.filter_eq_nil_iff.mpr
    intro member present
    have same := (keys_unlessNone_sublist _ _).subset (mem_keys_of_mem present)
    rw [List.mem_singleton.mp same]
    decide
  have openapi : (!isRead "openapi") = false := by decide
  have paths : (!isRead "paths") = false := by decide
  rw [written, List.filter_append, List.filter_cons, List.filter_cons, front, back, openapi, paths]
  simp

theorem componentsOf_written :
    componentsOf document.written = Components.ofMembers document.components.written := by
  have found : get? "components" document.written =
      get? "components" (unlessNone "components" document.components.written) := by
    have extra := get?_eq_none_iff.mpr (not_mem_extra settled "components" (by decide))
    simp [written, get?_append, get?_cons, extra]
  rw [componentsOf, found, get?_unlessNone, if_pos rfl]
  cases document.components.written <;> rfl

/-- A document is read from what is written of it, up to its paths and components. -/
theorem ofJson_written :
    ofJson (.object document.written) = (do
      let paths ← (readEntries (fun path => PathItem.ofJson (.pathItem path) path)
        (mapValues PathItem.toJson document.paths)).mapError .structure
      let components ← (Components.ofMembers document.components.written).mapError .structure
      pure { document with paths, components }) := by
  have openapi : versionOf document.written = .ok document.openapi := by
    simp [versionOf, written, get?_cons, settled.version]
    rfl
  have paths : pathsOf document.written = readEntries
      (fun path => PathItem.ofJson (.pathItem path) path)
      (mapValues PathItem.toJson document.paths) := by
    have extra := get?_eq_none_iff.mpr (not_mem_extra settled "paths" (by decide))
    simp [pathsOf, written, get?_append, get?_cons, extra]
  rw [ofJson, openapi, paths, componentsOf_written settled, extra_written settled]
  rfl

end Written

/-- The node stands in a schema of the document, wherever it is. -/
inductive HasNode (document : Document) (node : Schema) : Prop
  | mentioned {enums : Bool} {schema : Schema} (inside : document.Mentions enums schema)
      (part : node.IsNodeOf schema)
  | component {name : String} {schema : Schema}
      (present : (name, schema) ∈ document.components.schemas) (part : node.IsNodeOf schema)

/-- No node of a schema of the document is degenerate. -/
def Regular (document : Document) : Prop :=
  ∀ node, document.HasNode node → node.isDegenerate = false

theorem regular_iff {document : Document} :
    document.Regular ↔ (∀ enums schema, document.Mentions enums schema → schema.Regular) ∧
      ∀ name schema, (name, schema) ∈ document.components.schemas → schema.Regular := by
  constructor
  · intro regular
    exact ⟨fun _ _ inside node part => regular node (HasNode.mentioned inside part),
      fun _ _ present node part => regular node (HasNode.component present part)⟩
  · rintro ⟨mentioned, components⟩ node (⟨inside, part⟩ | ⟨present, part⟩)
    · exact mentioned _ _ inside node part
    · exact components _ _ present node part

section Sound

variable {document : Document} (sound : document.Sound)

include sound

theorem Sound.roundTrips_paths :
    RoundTrips (Members.same PathItem.same) (mapValues PathItem.toJson)
      (fun enums schema paths => ∃ path item, (path, item) ∈ paths ∧ item.Mentions enums schema)
      document.paths
      (readEntries (fun path => PathItem.ofJson (.pathItem path) path)
        (mapValues PathItem.toJson document.paths)) := by
  apply RoundTrips.members (fun path => PathItem.ofJson (.pathItem path) path) sound.maps.paths
  intro path item present
  apply PathItem.Sound.roundTrips
  exact ⟨sound.maps.items path item present, sound.settled.items path item present,
    fun enums schema inside => sound.mentioned enums schema (Mentions.path present inside)⟩

theorem Sound.roundTrips_requestBodies :
    RoundTrips (Members.same (RefOr.same RequestBody.same))
      (mapValues (RefOr.toJson RequestBody.toJson))
      (fun enums schema bodies => ∃ name body, (name, body) ∈ bodies ∧
        body.Inline (RequestBody.Mentions enums schema))
      document.components.requestBodies
      (readEntries (fun _ => RequestBody.ofJson)
        (mapValues (RefOr.toJson RequestBody.toJson) document.components.requestBodies)) := by
  apply RoundTrips.members (fun _ => RequestBody.ofJson) sound.maps.bodyNames
  intro name body present
  apply RequestBody.roundTrips
  exact ⟨sound.maps.requestBodies name body present, sound.settled.requestBodies name body present,
    fun enums schema inside => sound.mentioned enums schema (Mentions.requestBody present inside)⟩

theorem Sound.roundTrips_responses :
    RoundTrips (Members.same (RefOr.same Response.same))
      (mapValues (RefOr.toJson Response.toJson))
      (fun enums schema responses => ∃ name response, (name, response) ∈ responses ∧
        response.Inline (Response.Mentions enums schema))
      document.components.responses
      (readEntries (fun _ => Response.ofJson)
        (mapValues (RefOr.toJson Response.toJson) document.components.responses)) := by
  apply RoundTrips.members (fun _ => Response.ofJson) sound.maps.responseNames
  intro name response present
  apply Response.roundTrips
  exact ⟨sound.maps.responses name response present,
    sound.settled.responses name response present,
    fun enums schema inside => sound.mentioned enums schema (Mentions.response present inside)⟩

/-- Component schemas without degenerate nodes are read as they were written. -/
theorem Sound.readEntries_schemas
    (regular : ∀ name schema, (name, schema) ∈ document.components.schemas → schema.Regular) :
    readEntries Components.schemaOf (mapValues Schema.toJson document.components.schemas) =
      .ok document.components.schemas := by
  rw [readEntries_eq_ok_iff, related_mapValues_iff]
  apply Members.Related.refl
  intro name schema present
  rcases sound.components name schema present with ⟨asRead, distinct⟩
  rw [Components.schemaOf, mapError_eq_ok_iff]
  exact Schema.ofJson_toJson asRead distinct (regular name schema present)

theorem Sound.regular_of_readEntries {schemas : Members Schema}
    (read : readEntries Components.schemaOf (mapValues Schema.toJson document.components.schemas) =
      .ok schemas) (same : Schema.sameMap document.components.schemas schemas = true)
    (name : String) (schema : Schema) (present : (name, schema) ∈ document.components.schemas) :
    schema.Regular := by
  rw [readEntries_eq_ok_iff, related_mapValues_iff] at read
  rw [Schema.sameMap_eq, Members.same_iff_matches] at same
  rcases same.2 name schema present with ⟨back, found, equal⟩
  obtain ⟨other, beside, inside⟩ := read.get?_eq_some (sound.names.get?_eq_some present)
  cases found.symm.trans beside
  rcases sound.components name schema present with ⟨asRead, distinct⟩
  exact Schema.regular_of_same asRead distinct (mapError_eq_ok_iff.mp inside) equal

/-- A document without degenerate nodes is read from what is written of it as an equal one, with the
same component schemas. The same is written of it again, and it mentions no other schemas. -/
theorem exists_of_regular (regular : document.Regular) :
    ∃ back, ofJson document.toJson = .ok back ∧ (document == back) = true ∧
      back.toJson = document.toJson ∧ back.components.schemas = document.components.schemas ∧
      ∀ enums schema, back.Mentions enums schema → document.Mentions enums schema := by
  rcases regular_iff.mp regular with ⟨mentioned, components⟩
  have schemas := sound.readEntries_schemas components
  obtain ⟨paths, pathsRead, pathsSame, pathsAgain, pathsMention⟩ :=
    sound.roundTrips_paths.returns fun enums schema ⟨_, _, present, inside⟩ =>
      mentioned enums schema (Mentions.path present inside)
  obtain ⟨bodies, bodiesRead, bodiesSame, bodiesAgain, bodiesMention⟩ :=
    sound.roundTrips_requestBodies.returns fun enums schema ⟨_, _, present, inside⟩ =>
      mentioned enums schema (Mentions.requestBody present inside)
  obtain ⟨responses, responsesRead, responsesSame, responsesAgain, responsesMention⟩ :=
    sound.roundTrips_responses.returns fun enums schema ⟨_, _, present, inside⟩ =>
      mentioned enums schema (Mentions.response present inside)
  refine ⟨{ document with
    paths, components := { document.components with requestBodies := bodies, responses } },
    ?_, ?_, ?_, rfl, ?_⟩
  · rw [toJson_eq sound.settled sound.maps, ofJson_written sound.settled,
      Components.ofMembers_written sound.settled.componentsExtra, pathsRead, schemas, bodiesRead,
      responsesRead]
    rfl
  · change Document.same document _ = true
    simp [Document.same, sameItems_eq, Components.same, Schema.sameMap_eq,
      Members.same_self sound.names fun name schema present =>
        Schema.same_refl (sound.components name schema present).distinctKeys, pathsSame,
      bodiesSame, responsesSame, Json.sameMap_refl sound.maps.componentsExtra,
      Json.sameMap_refl sound.maps.extra]
  · rw [toJson, toJson, itemMembers_eq, itemMembers_eq, pathsAgain, Components.toMembers,
      Components.toMembers, bodiesAgain, responsesAgain]
  · intro enums schema inside
    cases inside with
    | path present inside =>
        rcases pathsMention enums schema ⟨_, _, present, inside⟩ with ⟨_, _, there, within⟩
        exact Mentions.path there within
    | requestBody present inside =>
        rcases bodiesMention enums schema ⟨_, _, present, inside⟩ with ⟨_, _, there, within⟩
        exact Mentions.requestBody there within
    | response present inside =>
        rcases responsesMention enums schema ⟨_, _, present, inside⟩ with ⟨_, _, there, within⟩
        exact Mentions.response there within

/-- If what is read from what is written of a document equals the document, it has no degenerate
nodes. -/
theorem regular_of_same {back : Document} (read : ofJson document.toJson = .ok back)
    (same : (document == back) = true) : document.Regular := by
  rw [toJson_eq sound.settled sound.maps, ofJson_written sound.settled,
    Components.ofMembers_written sound.settled.componentsExtra] at read
  rcases bind_eq_ok_iff.mp read with ⟨paths, pathsRead, read⟩
  rcases bind_eq_ok_iff.mp read with ⟨components, componentsRead, read⟩
  cases pure_eq_ok_iff.mp read
  rcases bind_eq_ok_iff.mp (mapError_eq_ok_iff.mp componentsRead) with
    ⟨schemas, schemasRead, componentsRead⟩
  rcases bind_eq_ok_iff.mp componentsRead with ⟨bodies, bodiesRead, componentsRead⟩
  rcases bind_eq_ok_iff.mp componentsRead with ⟨responses, responsesRead, componentsRead⟩
  cases pure_eq_ok_iff.mp componentsRead
  change Document.same document _ = true at same
  simp only [Document.same, sameItems_eq, Components.same, Bool.and_eq_true] at same
  obtain ⟨⟨⟨_, pathsSame⟩, ⟨⟨schemasSame, bodiesSame⟩, responsesSame⟩, _⟩, _⟩ := same
  apply regular_iff.mpr
  constructor
  · intro enums schema inside
    cases inside with
    | path present inside =>
        exact sound.roundTrips_paths.regular paths (mapError_eq_ok_iff.mp pathsRead) pathsSame
          enums schema ⟨_, _, present, inside⟩
    | requestBody present inside =>
        exact sound.roundTrips_requestBodies.regular bodies bodiesRead bodiesSame enums schema
          ⟨_, _, present, inside⟩
    | response present inside =>
        exact sound.roundTrips_responses.regular responses responsesRead responsesSame enums schema
          ⟨_, _, present, inside⟩
  · exact sound.regular_of_readEntries schemasRead schemasSame

end Sound

end Document

end SchemaLift
