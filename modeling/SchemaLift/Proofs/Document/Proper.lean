import SchemaLift.Proofs.Document.Items
import SchemaLift.Proofs.Schema.Proper

/-!
# Documents that are written as values that can be read

A document that is read from a text is written as a value that can be read
(`Document.proper_of_ofText`): no object has a key twice, and every number stands in the text.
-/

namespace SchemaLift

open Json (ProperMap ProperValues)

/-! ## Lists and entries -/

theorem properValues_unlessNone {key : String} {entries : Members Json}
    (proper : ProperMap entries) : ProperValues (unlessNone key entries) := by
  unfold unlessNone
  split_ifs
  · exact Json.properValues_nil
  · exact Json.properValues_cons.mpr
      ⟨(Json.properMap_iff entries).mp proper, Json.properValues_nil⟩

section Entries

variable {α : Type} {read : String → Json → Except Fault α} {write : α → Json}

theorem properMap_of_readEntries {entries : Members Json} {members : Members α}
    (each : ∀ name value entry, (name, value) ∈ entries → read name value = .ok entry →
      (write entry).Proper)
    (names : Members.Distinct entries) (result : readEntries read entries = .ok members) :
    ProperMap (Members.mapValues write members) := by
  have all := readEntries_eq_ok_iff.mp result
  refine properMap_mapValues (all.distinct names) fun name entry present => ?_
  rcases all.exists_left present with ⟨value, inside, own⟩
  exact each name value entry inside own

theorem properMap_of_readIfObject {value : Option Json} {members : Members α}
    (each : ∀ name value entry, value.Proper → read name value = .ok entry → (write entry).Proper)
    (proper : ∀ inner, value = some inner → inner.Proper)
    (result : readIfObject read value = .ok members) :
    ProperMap (Members.mapValues write members) := by
  unfold readIfObject at result
  split at result
  · next entries =>
      have map := (Json.properMap_iff entries).mpr (proper _ rfl)
      exact properMap_of_readEntries (fun name value entry inside =>
        each name value entry (map.2 (name, value) inside)) map.1 result
  · cases result
    exact ⟨List.nodup_nil, Json.properValues_nil⟩

end Entries

/-! ## Contents -/

theorem properValues_of_readSchema? {value : Option Json} {schema : Option Schema}
    (proper : ∀ inner, value = some inner → inner.Proper) (read : readSchema? value = .ok schema) :
    ProperValues (optional "schema" Schema.toJson schema) := by
  cases value with
  | none =>
      cases read
      exact Json.properValues_nil
  | some inner =>
      rcases bind_eq_ok_iff.mp read with ⟨own, found, same⟩
      cases pure_eq_ok_iff.mp same
      apply properValues_optional
      rintro _ ⟨⟩
      exact Schema.proper_of_ofJson (proper inner rfl) found

theorem MediaType.proper_of_ofJson {name : String} {value : Json} {media : MediaType}
    (proper : value.Proper) (read : ofJson name value = .ok media) : media.toJson.Proper := by
  cases value with
  | object members =>
      have map := (Json.properMap_iff members).mpr proper
      rcases bind_eq_ok_iff.mp read with ⟨schema, own, same⟩
      cases pure_eq_ok_iff.mp same
      have written := properValues_of_readSchema? (fun _ => map.get?) own
      exact (Json.properMap_iff _).mp (.extend
        ⟨(keys_optional_sublist _ _ _).nodup (List.nodup_singleton _), written⟩
        (map.erase "schema").2)
  | null =>
      cases read
      exact (Json.properMap_iff _).mp ⟨List.nodup_nil, Json.properValues_nil⟩
  | _ => cases read

theorem properValues_of_readContent {value : Option Json} {content : Option Content}
    (proper : ∀ inner, value = some inner → inner.Proper) (read : readContent value = .ok content) :
    ProperValues (optional "content" writeContent content) := by
  unfold readContent at read
  split at read
  · next entries =>
      rcases bind_eq_ok_iff.mp read with ⟨media, own, same⟩
      cases pure_eq_ok_iff.mp same
      have map := (Json.properMap_iff entries).mpr (proper _ rfl)
      apply properValues_optional
      rintro _ ⟨⟩
      exact (Json.properMap_iff _).mp (properMap_of_readEntries (fun name value _ inside =>
        MediaType.proper_of_ofJson (map.2 (name, value) inside)) map.1 own)
  · cases read
    exact Json.properValues_nil
  · cases read
  · cases read
    exact Json.properValues_nil

/-! ## Parts that may be references -/

theorem RefOr.proper_of_ofJson {α : Type} {place : Place} {read : Members Json → Except Fault α}
    {write : α → Json}
    (each : ∀ members item, ProperMap members → read members = .ok item → (write item).Proper)
    {value : Json} {result : RefOr α} (proper : value.Proper)
    (found : RefOr.ofJson place read value = .ok result) : (RefOr.toJson write result).Proper := by
  cases value with
  | object members =>
      have map := (Json.properMap_iff members).mpr proper
      rw [ofJson] at found
      split at found
      · next target same =>
          cases found
          exact Reference.proper_of_ofMembers? same map
      · rcases bind_eq_ok_iff.mp found with ⟨item, inside, same⟩
        cases pure_eq_ok_iff.mp same
        exact each _ item (map.moveToEnd "$ref") inside
  | _ => cases found

namespace Parameter

theorem proper_of_ofMembers {members : Members Json} {parameter : Parameter}
    (proper : ProperMap members) (read : ofMembers members = .ok parameter) :
    parameter.toJson.Proper := by
  rcases bind_eq_ok_iff.mp read with ⟨schema, own, read⟩
  rcases bind_eq_ok_iff.mp read with ⟨content, inside, read⟩
  cases pure_eq_ok_iff.mp read
  have named := (proper.takeAs Json.string? "name").takeAs Json.string? "in"
  have schemas := properValues_of_readSchema? (fun _ => named.get?) own
  have contents := properValues_of_readContent (fun _ => (named.erase "schema").get?) inside
  have identity : ProperMap
      [("name", Json.string (((Members.takeAs Json.string? "name" members).1).getD "")),
        ("in", .string ((Members.takeAs Json.string? "in"
          (Members.takeAs Json.string? "name" members).2).1.getD ""))] := by
    refine ⟨by simp [Members.Distinct], ?_⟩
    simp only [Json.properValues_cons]
    exact ⟨Json.proper_string _, Json.proper_string _, Json.properValues_nil⟩
  exact (Json.properMap_iff _).mp
    ((identity.extend ((named.erase "schema").erase "content").2).extend
      (Json.properValues_append.mpr ⟨schemas, contents⟩))

theorem properValues_of_listOf {value : Option Json} {parameters : List (RefOr Parameter)}
    (proper : ∀ inner, value = some inner → inner.Proper) (read : listOf value = .ok parameters) :
    ProperValues (listMember parameters) := by
  unfold listOf at read
  split at read
  · next elements =>
      apply properValues_unlessEmpty
      rw [List.forall_mem_map]
      intro parameter present
      rcases exists_of_forall₂ (mapM_eq_ok_iff.mp read) present with ⟨value, inside, own⟩
      exact RefOr.proper_of_ofJson (fun _ _ => proper_of_ofMembers)
        ((proper _ rfl).part inside) own
  · cases read
    exact Json.properValues_nil
  · cases read
  · cases read
    exact Json.properValues_nil

end Parameter

theorem RequestBody.proper_of_ofJson {value : Json} {body : RefOr RequestBody}
    (proper : value.Proper) (read : ofJson value = .ok body) :
    (RefOr.toJson toJson body).Proper := by
  refine RefOr.proper_of_ofJson (fun members item map inside => ?_) proper read
  rcases bind_eq_ok_iff.mp inside with ⟨content, found, same⟩
  cases pure_eq_ok_iff.mp same
  exact (Json.properMap_iff _).mp ((map.erase "content").extend
    (properValues_of_readContent (fun _ => map.get?) found))

theorem Response.proper_of_ofJson {value : Json} {response : RefOr Response}
    (proper : value.Proper) (read : ofJson value = .ok response) :
    (RefOr.toJson toJson response).Proper := by
  refine RefOr.proper_of_ofJson (fun members item map inside => ?_) proper read
  rcases bind_eq_ok_iff.mp inside with ⟨content, found, same⟩
  cases pure_eq_ok_iff.mp same
  exact (Json.properMap_iff _).mp ((map.erase "content").extend
    (properValues_of_readContent (fun _ => map.get?) found))

/-! ## Path items -/

/-- Whatever is read from a value, as a path item or a part of one, is written as a value that can
be read. -/
structure PathItem.ReadsProper (value : Json) : Prop where
  item : ∀ place path item, PathItem.ofJson place path value = .ok item → item.toJson.Proper
  operation : ∀ path method operation, Operation.ofJson path method value = .ok operation →
    operation.toJson.Proper
  callback : ∀ callback, Callback.ofJson value = .ok callback →
    (RefOr.toJson Callback.toJson callback).Proper
  callbacks : ∀ entries callbacks, value = .object entries → callbacksOf entries = .ok callbacks →
    ProperMap (callbackMembers callbacks)

section Inside

variable {members : Members Json} (proper : ProperMap members)
  (each : ∀ name value, (name, value) ∈ members → PathItem.ReadsProper value)

include proper each

theorem Operation.proper_of_object {path : String} {method : Method} {operation : Operation}
    (read : ofJson path method (.object members) = .ok operation) : operation.toJson.Proper := by
  rw [ofJson_object_eq] at read
  rcases bind_eq_ok_iff.mp read with ⟨parameters, listed, read⟩
  rcases bind_eq_ok_iff.mp read with ⟨requestBody, sent, read⟩
  rcases bind_eq_ok_iff.mp read with ⟨responses, answers, read⟩
  rcases bind_eq_ok_iff.mp read with ⟨callbacks, called, read⟩
  cases pure_eq_ok_iff.mp read
  have parametersAll := Parameter.properValues_of_listOf (fun _ => proper.get?) listed
  have bodies : ProperValues
      (optional "requestBody" (RefOr.toJson RequestBody.toJson) requestBody) := by
    apply properValues_optional
    rintro body rfl
    rcases exists_of_optionMapM sent with ⟨value, found, own⟩
    exact RequestBody.proper_of_ofJson (proper.get? found) own
  have responsesAll := properMap_of_readIfObject (fun _ _ _ => Response.proper_of_ofJson)
    (fun _ => proper.get?) answers
  have callbacksAll : ProperMap (callbackMembers callbacks) := by
    unfold readIfObject at called
    split at called
    · next entries found =>
        have inside := each _ _ (Members.mem_of_get?_eq_some found)
        exact inside.callbacks entries callbacks rfl ((callbacksOf_eq entries).trans called)
    · cases called
      exact ⟨List.nodup_nil, Json.properValues_nil⟩
  have identity (value : Option String) : ProperMap (optional "operationId" Json.string value) :=
    ⟨(keys_optional_sublist _ _ _).nodup (List.nodup_singleton _),
      properValues_optional fun inner _ => Json.proper_string inner⟩
  rw [Operation.toJson]
  refine (Json.properMap_iff _).mp (((identity _).extend (proper.filter _).2).extend ?_)
  simp only [Json.properValues_append]
  exact ⟨⟨⟨parametersAll, bodies⟩, Json.properValues_cons.mpr
    ⟨(Json.properMap_iff _).mp responsesAll, Json.properValues_nil⟩⟩,
    properValues_unlessNone callbacksAll⟩

theorem PathItem.proper_of_object {place : Place} {path : String} {item : PathItem}
    (read : ofJson place path (.object members) = .ok item) : item.toJson.Proper := by
  rw [ofJson_object_eq] at read
  rcases bind_eq_ok_iff.mp read with ⟨parameters, listed, read⟩
  rcases bind_eq_ok_iff.mp read with ⟨operations, inside, read⟩
  cases pure_eq_ok_iff.mp read
  have parametersAll := Parameter.properValues_of_listOf (fun _ => proper.get?) listed
  have operationsAll : ProperValues (operationMembers operations) := by
    rw [operationMembers_eq, ProperValues, List.forall_mem_map]
    rintro ⟨method, operation⟩ present
    rcases (of_operationsIn inside).2 method operation present with ⟨value, there, own⟩
    have reads := each _ _ (Members.mem_of_get?_eq_some there)
    exact reads.operation path method operation own
  rw [PathItem.toJson]
  exact (Json.properMap_iff _).mp ((proper.filter _).extend
    (Json.properValues_append.mpr ⟨parametersAll, operationsAll⟩))

theorem Callback.proper_of_object {callback : RefOr Callback}
    (read : ofJson (.object members) = .ok callback) :
    (RefOr.toJson toJson callback).Proper := by
  rw [ofJson_object_eq proper.1, RefOr.ofJson] at read
  split at read
  · next target found =>
      cases read
      exact Reference.proper_of_ofMembers? found proper
  · rcases bind_eq_ok_iff.mp read with ⟨_, inside, read⟩
    cases pure_eq_ok_iff.mp read
    have all := related_of_ofMembers inside
    rw [RefOr.toJson, toJson_eq]
    refine (Json.properMap_iff _).mp (properMap_mapValues
      (all.distinct (proper.1.moveToEnd "$ref")) fun path item present => ?_)
    rcases all.exists_left present with ⟨value, there, own⟩
    exact (each path value ((Members.mem_moveToEnd proper.1).mp there)).item _ path item own

theorem Callback.properMap_of_entries {callbacks : Members (RefOr Callback)}
    (read : callbacksOf members = .ok callbacks) : ProperMap (callbackMembers callbacks) := by
  rw [callbacksOf_eq] at read
  rw [callbackMembers_eq]
  apply properMap_of_readEntries _ proper.1 read
  exact fun name value callback present => (each name value present).callback callback

end Inside

theorem PathItem.readsProper {value : Json} (proper : value.Proper) : ReadsProper value := by
  induction value using Json.induction with
  | step value ih =>
      have below := fun part inside => ih part inside (proper.part inside)
      cases value with
      | object members =>
          have map := (Json.properMap_iff members).mpr proper
          have each : ∀ name value, (name, value) ∈ members → ReadsProper value :=
            fun name value present => below value (List.mem_map_of_mem present)
          constructor
          · exact fun place path item => proper_of_object map each
          · exact fun path method operation => Operation.proper_of_object map each
          · exact fun callback => Callback.proper_of_object map each
          · rintro _ callbacks ⟨⟩
            exact Callback.properMap_of_entries map each
      | _ =>
          constructor
          · rintro place path item ⟨⟩
          · rintro path method operation ⟨⟩
          · rintro callback ⟨⟩
          · rintro entries callbacks ⟨⟩

/-! ## Whole documents -/

namespace Components

theorem properMap_of_ofMembers {members : Members Json} {components : Components}
    (proper : ProperMap members) (read : ofMembers members = .ok components) :
    ProperMap components.toMembers := by
  rcases bind_eq_ok_iff.mp read with ⟨schemas, first, read⟩
  rcases bind_eq_ok_iff.mp read with ⟨requestBodies, second, read⟩
  rcases bind_eq_ok_iff.mp read with ⟨responses, third, read⟩
  cases pure_eq_ok_iff.mp read
  have named := properMap_of_readIfObject (fun _ _ _ own found =>
    Schema.proper_of_ofJson own (mapError_eq_ok_iff.mp found)) (fun _ => proper.get?) first
  have bodies := properMap_of_readIfObject (fun _ _ _ => RequestBody.proper_of_ofJson)
    (fun _ => proper.get?) second
  have answers := properMap_of_readIfObject (fun _ _ _ => Response.proper_of_ofJson)
    (fun _ => proper.get?) third
  rw [← Schema.toMembers_eq] at named
  have front : ProperMap (unlessNone "schemas" (Schema.toMembers schemas) ++
      unlessNone "responses" (Members.mapValues (RefOr.toJson Response.toJson) responses)) := by
    refine ⟨?_, Json.properValues_append.mpr
      ⟨properValues_unlessNone named, properValues_unlessNone answers⟩⟩
    unfold unlessNone
    split_ifs <;> simp [Members.Distinct]
  exact (front.extend (proper.filter _).2).extend (properValues_unlessNone bodies)

theorem properMap_default : ProperMap (toMembers {}) :=
  ⟨List.nodup_nil, Json.properValues_nil⟩

end Components

namespace Document

theorem properMap_of_pathsOf {members : Members Json} {paths : Members PathItem}
    (proper : ProperMap members) (read : pathsOf members = .ok paths) :
    ProperMap (itemMembers paths) := by
  rw [itemMembers_eq]
  unfold pathsOf at read
  split at read
  · next entries found =>
      have map := proper.value found
      apply properMap_of_readEntries _ map.1 read
      intro path value item present
      exact (PathItem.readsProper (map.2 (path, value) present)).item _ path item
  · cases read
    exact ⟨List.nodup_nil, Json.properValues_nil⟩
  · cases read
  · cases read
    exact ⟨List.nodup_nil, Json.properValues_nil⟩

theorem properMap_of_componentsOf {members : Members Json} {components : Components}
    (proper : ProperMap members) (read : componentsOf members = .ok components) :
    ProperMap components.toMembers := by
  unfold componentsOf at read
  split at read
  · next entries found => exact Components.properMap_of_ofMembers (proper.value found) read
  · cases read
    exact Components.properMap_default
  · cases read
  · cases read
    exact Components.properMap_default

/-- A document that is read from a value that can be read is written as one. -/
theorem proper_of_ofJson {value : Json} {document : Document} (proper : value.Proper)
    (read : ofJson value = .ok document) : document.toJson.Proper := by
  cases value with
  | object members =>
      have map := (Json.properMap_iff members).mpr proper
      rw [ofJson] at read
      rcases bind_eq_ok_iff.mp read with ⟨openapi, version, read⟩
      rcases bind_eq_ok_iff.mp read with ⟨paths, listed, read⟩
      rcases bind_eq_ok_iff.mp read with ⟨components, inside, read⟩
      cases pure_eq_ok_iff.mp read
      have items := properMap_of_pathsOf map (mapError_eq_ok_iff.mp listed)
      have parts := properMap_of_componentsOf map (mapError_eq_ok_iff.mp inside)
      have identity : ProperMap [("openapi", Json.string openapi)] :=
        ⟨List.nodup_singleton _,
          Json.properValues_cons.mpr ⟨Json.proper_string _, Json.properValues_nil⟩⟩
      refine (Json.properMap_iff _).mp ((identity.extend (map.filter _).2).extend ?_)
      exact Json.properValues_cons.mpr
        ⟨(Json.properMap_iff _).mp items, properValues_unlessNone parts⟩
  | _ => cases read

/-- A document that is read from a text is written as a value that can be read. -/
theorem proper_of_ofText {text : String} {document : Document} (read : ofText text = .ok document) :
    document.toJson.Proper := by
  rw [ofText] at read
  split at read
  · next value found => exact proper_of_ofJson (Yaml.proper_of_toJson? found) read
  · cases read

end Document

end SchemaLift
