import SchemaLift.Proofs.Document.RoundTrip
import SchemaLift.Proofs.Kept.Contents

/-!
# What reading keeps of documents

What is written of a document that was read from a text mirrors the value of the text, apart from
its version: a scalar value of the text is written where it stood exactly when the reader keeps it
(`Document.at?_toJson_iff`).

Path items contain path items, so that what holds of them follows from what holds of the values
inside the one that is read (`Json.induction`).
-/

namespace SchemaLift

open Members

/-! ## Maps that need not be there -/

/-- The entries of an object are kept as they are read; what is no object is dropped. -/
theorem mirrors_readIfObject {α : Type} {part : Part} {read : String → Json → Except Fault α}
    {write : α → Json} {value : Json} {entries : Members α}
    (result : readIfObject read (some value) = .ok entries)
    (each : ∀ child ∈ value.parts, ∀ name entry, read name child = .ok entry →
      part.Mirrors child (some (write entry))) :
    (Part.map part).Mirrors value (some (.object (mapValues write entries))) := by
  cases value with
  | object members =>
      apply Part.mirrors_of_related
      refine (readEntries_eq_ok_iff.mp result).mono fun name child entry present => ?_
      exact each child (List.mem_map_of_mem present) name entry
  | _ =>
      cases result
      apply Part.mirrors_of_not_accepts rfl
      apply Json.isScalar_eq_false_of_step?_eq_none rfl
      intro step
      cases step <;> rfl

/-! ## Path items -/

/-- What is written of a path item, an operation or a callback mirrors the value that it is read
from. -/
structure PathItem.Mirrored (value : Json) : Prop where
  item : ∀ place path item, PathItem.ofJson place path value = .ok item →
    Part.pathItem.Mirrors value (some item.toJson)
  operation : ∀ path method operation, Operation.ofJson path method value = .ok operation →
    Part.operation.Mirrors value (some operation.toJson)
  callback : ∀ callback, Callback.ofJson value = .ok callback →
    Part.callback.Mirrors value (some (callback.toJson Callback.toJson))

/-- What an operation is read from. -/
structure Operation.ReadFrom (members : Members Json) (operation : Operation) : Prop where
  operationId : operation.operationId = (get? "operationId" members).bind Json.string?
  parameters : Parameter.listOf (get? "parameters" members) = .ok operation.parameters
  requestBody : ∀ value, get? "requestBody" members = some value →
    ∃ body, operation.requestBody = some body ∧ RequestBody.ofJson value = .ok body
  responses : readIfObject (fun _ => Response.ofJson) (get? "responses" members) =
    .ok operation.responses
  callbacks : readIfObject (fun _ => Callback.ofJson) (get? "callbacks" members) =
    .ok operation.callbacks
  extra : operation.extra = extraOf members

theorem Operation.readFrom_of_ofJson {path : String} {method : Method} {members : Members Json}
    {operation : Operation} (read : ofJson path method (.object members) = .ok operation) :
    operation.ReadFrom members := by
  rw [ofJson_object_eq] at read
  rcases bind_eq_ok_iff.mp read with ⟨parameters, listed, read⟩
  rcases bind_eq_ok_iff.mp read with ⟨requestBody, sent, read⟩
  rcases bind_eq_ok_iff.mp read with ⟨responses, answers, read⟩
  rcases bind_eq_ok_iff.mp read with ⟨callbacks, called, read⟩
  cases pure_eq_ok_iff.mp read
  refine ⟨rfl, listed, fun value there => ?_, answers, called, rfl⟩
  rw [there, optionMapM_eq_ok_iff] at sent
  cases sent with
  | some own => exact ⟨_, rfl, own⟩

section Inside

variable {members : Members Json} (distinct : Json.DistinctMap members)
  (each : ∀ name value, (name, value) ∈ members →
    PathItem.Mirrored value ∧ ∀ part ∈ value.parts, PathItem.Mirrored part)

include distinct each

theorem Operation.mirrors_object {path : String} {method : Method} {operation : Operation}
    (read : ofJson path method (.object members) = .ok operation) :
    Part.operation.Mirrors (.object members) (some operation.toJson) := by
  have sound := (PathItem.readsSound ((Json.distinctMap_iff_distinctKeys members).mp distinct)
    ).operation path method operation read
  have settled := sound.settled
  rcases readFrom_of_ofJson read with
    ⟨operationId, parameters, requestBody, responses, callbacks, extra⟩
  rw [toJson_eq settled sound.maps.extra.1]
  refine Part.mirrors_of_known rfl (by rintro ⟨⟩) (fun _ => rfl) ?_ ?_
  · intro name own child known there
    simp only [Part.known, List.mem_cons, List.not_mem_nil, or_false, Prod.mk.injEq] at known
    rcases known with ⟨rfl, rfl⟩ | ⟨rfl, rfl⟩ | ⟨rfl, rfl⟩ | ⟨rfl, rfl⟩ | ⟨rfl, rfl⟩
    · rw [get?_operationId_written settled, operationId, there, Option.bind_some]
      exact Part.mirrors_text child
    · rw [there] at parameters
      have mirrors := Parameter.mirrors_listOf (distinct.get? there) parameters
      rw [get?_written settled (by decide)]
      simpa [parts, get?_append, get?_cons] using mirrors
    · rcases requestBody child there with ⟨body, same, inside⟩
      have mirrors := RequestBody.mirrors_ofJson (distinct.get? there) inside
      rw [get?_written settled (by decide)]
      simpa [parts, get?_append, get?_cons, Parameter.listMember, same] using mirrors
    · rw [there] at responses
      have mirrors := mirrors_readIfObject responses fun part inside _ _ =>
        Response.mirrors_ofJson ((distinct.get? there).part inside)
      rw [get?_written settled (by decide)]
      simpa [parts, get?_append, get?_cons, Parameter.listMember] using mirrors
    · rw [there] at callbacks
      have mirrors := mirrors_readIfObject callbacks fun part inside _ =>
        ((each _ _ (mem_of_get?_eq_some there)).2 part inside).callback
      rw [get?_written settled (by decide)]
      simpa [parts, get?_append, get?_cons, Parameter.listMember] using mirrors.unless_object
  · intro name child other there
    have unread : name ∉ readKeys := by simpa [Part.known, readKeys] using other
    have left : get? name operation.extra = some child := by
      rw [extra, extraOf, distinct.1.get?_filter, there]
      simp [unread]
    have differs : "operationId" ≠ name := by
      rintro rfl
      exact unread (by decide)
    rw [written, get?_append, get?_append, get?_optional, if_neg differs, Option.none_or, left,
      Option.some_or]

theorem PathItem.mirrors_object {place : Place} {path : String} {item : PathItem}
    (read : ofJson place path (.object members) = .ok item) :
    Part.pathItem.Mirrors (.object members) (some item.toJson) := by
  have keys := (Json.distinctMap_iff_distinctKeys members).mp distinct
  obtain ⟨⟨_, _, extraMaps, _⟩, ⟨_, order, _, apart, _⟩, _⟩ :=
    (readsSound keys).item place path item read
  rw [toJson_eq order apart extraMaps.1]
  rw [ofJson_object_eq] at read
  rcases bind_eq_ok_iff.mp read with ⟨parameters, listed, read⟩
  rcases bind_eq_ok_iff.mp read with ⟨operations, inside, read⟩
  cases pure_eq_ok_iff.mp read
  refine Part.mirrors_of_known rfl (by rintro ⟨⟩) (fun _ => rfl) ?_ ?_
  · intro name own child known there
    rcases List.mem_cons.mp known with same | known
    · cases same
      rw [there] at listed
      rw [get?_parameters_written apart]
      exact Parameter.mirrors_listOf (distinct.get? there) listed
    · rcases List.mem_map.mp known with ⟨method, present, same⟩
      cases same
      rcases exists_of_operationsIn inside (by decide) present there with ⟨operation, beside, own⟩
      rw [get?_key_written apart, beside]
      exact (each _ _ (mem_of_get?_eq_some there)).1.operation path method operation own
  · intro name child other there
    have left : get? name (extraOf members) = some child := by
      have differs : name ∉ partKeys := by simpa [Part.known, partKeys, Members.keys] using other
      rw [partKeys, List.mem_cons, not_or] at differs
      rw [extraOf, distinct.1.get?_filter, there]
      simp [differs.1, differs.2]
    rw [get?_append, left, Option.some_or]

theorem Callback.mirrors_object {callback : RefOr Callback}
    (read : ofJson (.object members) = .ok callback) :
    Part.callback.Mirrors (.object members) (some (callback.toJson toJson)) := by
  rw [ofJson_object_eq distinct.1] at read
  apply RefOr.mirrors_ofJson rfl ((Json.distinctMap_iff_distinctKeys members).mp distinct) read
  rintro _ item ⟨⟩ rfl inline inside
  rw [toJson_eq]
  apply Part.mirrors_object rfl
  intro name child there
  have plain : Part.callback.inside (.object members) (.key name) = .pathItem := by
    simp [Part.inside, inline, Part.under]
  have moved : get? name (withoutReference members) = some child := by
    rw [withoutReference, get?_moveToEnd distinct.1, there]
  rcases (related_of_ofMembers inside).get?_eq_some moved with ⟨item, beside, own⟩
  rw [plain, Option.bind_some, Json.step?_key_object, get?_mapValues, beside]
  exact (each _ _ (mem_of_get?_eq_some there)).1.item _ name item own

end Inside

theorem PathItem.mirrored {value : Json} (distinct : value.DistinctKeys) :
    Mirrored value := by
  -- The callbacks of an operation stand in a map, one level deeper than its members.
  have both : Mirrored value ∧ ∀ part ∈ value.parts, Mirrored part := by
    induction value using Json.induction with
    | step value ih =>
        have below := fun part inside => ih part inside (distinct.part inside)
        refine ⟨?_, fun part inside => (below part inside).1⟩
        cases value with
        | object members =>
            have keys := (Json.distinctMap_iff_distinctKeys members).mpr distinct
            have each : ∀ name value, (name, value) ∈ members →
                Mirrored value ∧ ∀ part ∈ value.parts, Mirrored part :=
              fun name value present => below value (List.mem_map_of_mem present)
            constructor
            · exact fun place path item => mirrors_object keys each
            · exact fun path method operation => Operation.mirrors_object keys each
            · exact fun callback => Callback.mirrors_object keys each
        | _ =>
            constructor
            · rintro place path item ⟨⟩
            · rintro path method operation ⟨⟩
            · rintro callback ⟨⟩
  exact both.1

/-! ## Whole documents -/

namespace Components

theorem mirrors_ofMembers {members : Members Json} (distinct : Json.DistinctMap members)
    {components : Components} (read : ofMembers members = .ok components) :
    Part.components.Mirrors (.object members) (some (.object components.written)) := by
  have settled := (sound_of_ofMembers distinct read).settled
  rcases bind_eq_ok_iff.mp read with ⟨schemas, schemasRead, read⟩
  rcases bind_eq_ok_iff.mp read with ⟨requestBodies, bodiesRead, read⟩
  rcases bind_eq_ok_iff.mp read with ⟨responses, responsesRead, read⟩
  cases pure_eq_ok_iff.mp read
  have absent := fun key read => get?_eq_none_iff.mpr (not_mem_extra settled key read)
  refine Part.mirrors_of_known rfl (by rintro ⟨⟩) (fun _ => rfl) ?_ ?_
  · intro name own child known there
    simp only [Part.known, List.mem_cons, List.not_mem_nil, or_false, Prod.mk.injEq] at known
    have inside : ∀ part ∈ child.parts, part.DistinctKeys := fun _ => (distinct.get? there).part
    rcases known with ⟨rfl, rfl⟩ | ⟨rfl, rfl⟩ | ⟨rfl, rfl⟩
    · rw [there] at schemasRead
      have mirrors := mirrors_readIfObject schemasRead fun part present _ _ own =>
        Schema.mirrors_of_ofJson (inside part present) (mapError_eq_ok_iff.mp own)
      have extra := absent "schemas" (by decide)
      simpa [written, get?_append, extra] using mirrors.unless_object
    · rw [there] at bodiesRead
      have mirrors := mirrors_readIfObject bodiesRead fun part present _ _ =>
        RequestBody.mirrors_ofJson (inside part present)
      have extra := absent "requestBodies" (by decide)
      simpa [written, get?_append, extra] using mirrors.unless_object
    · rw [there] at responsesRead
      have mirrors := mirrors_readIfObject responsesRead fun part present _ _ =>
        Response.mirrors_ofJson (inside part present)
      have extra := absent "responses" (by decide)
      simpa [written, get?_append, extra] using mirrors.unless_object
  · intro name child other there
    obtain ⟨schemas, requestBodies, responses⟩ :
        "schemas" ≠ name ∧ "requestBodies" ≠ name ∧ "responses" ≠ name := by
      simpa [Part.known, eq_comm] using other
    have unread : isRead name = false := by
      simp [isRead, schemas.symm, requestBodies.symm, responses.symm]
    simp [written, get?_append, schemas, requestBodies, responses, distinct.1.get?_filter, there,
      unread]

end Components

namespace Document

theorem mirrors_componentsOf {members : Members Json} (distinct : Json.DistinctMap members)
    {value : Json} (found : get? "components" members = some value) {components : Components}
    (read : componentsOf members = .ok components) :
    Part.components.Mirrors value (some (.object components.written)) := by
  rw [componentsOf, found] at read
  cases value with
  | null => exact Part.mirrors_null
  | object entries => exact Components.mirrors_ofMembers (distinct.value found) read
  | _ => cases read

theorem mirrors_pathsOf {members : Members Json} (distinct : Json.DistinctMap members)
    {value : Json} (found : get? "paths" members = some value) {paths : Members PathItem}
    (read : pathsOf members = .ok paths) :
    (Part.map .pathItem).Mirrors value (some (.object (mapValues PathItem.toJson paths))) := by
  rw [pathsOf, found] at read
  cases value with
  | null => exact Part.mirrors_null
  | object entries =>
      have keys := distinct.value found
      apply Part.mirrors_of_related
      exact (readEntries_eq_ok_iff.mp read).mono fun name value item present =>
        (PathItem.mirrored (keys.2 name value present)).item _ name item
  | _ => cases read

/-- The version is a text or a number. -/
theorem isScalar_of_versionOf {members : Members Json} {version : String}
    (read : versionOf members = .ok version) {value : Json}
    (found : get? "openapi" members = some value) : value.isScalar = true := by
  rw [versionOf, found] at read
  cases value with
  | string => rfl
  | number => rfl
  | _ => cases read

/-- What is written of a document mirrors the value that it was read from, under every key but that
of the version. -/
theorem mirrors_ofMembers {members : Members Json} (distinct : Json.DistinctMap members)
    {document : Document} (read : ofJson (.object members) = .ok document) {name : String}
    {child : Json} (there : get? name members = some child) (other : name ≠ "openapi") :
    (Part.document.under members name).Mirrors child (get? name document.written) := by
  have settled :=
    (sound_of_ofJson ((Json.distinctMap_iff_distinctKeys members).mp distinct) read).settled
  have absent := fun key read => get?_eq_none_iff.mpr (not_mem_extra settled key read)
  rw [ofJson] at read
  rcases bind_eq_ok_iff.mp read with ⟨openapi, _, read⟩
  rcases bind_eq_ok_iff.mp read with ⟨paths, listed, read⟩
  rcases bind_eq_ok_iff.mp read with ⟨components, inside, read⟩
  cases pure_eq_ok_iff.mp read
  by_cases isPaths : name = "paths"
  · subst isPaths
    have mirrors := mirrors_pathsOf distinct there (mapError_eq_ok_iff.mp listed)
    have extra := absent "paths" (by decide)
    simpa [Part.under, Part.known, written, get?_append, get?_cons, extra] using mirrors
  · by_cases isComponents : name = "components"
    · subst isComponents
      have mirrors := mirrors_componentsOf distinct there (mapError_eq_ok_iff.mp inside)
      have extra := absent "components" (by decide)
      simpa [Part.under, Part.known, written, get?_append, get?_cons, extra] using
        mirrors.unless_object
    · have plain : Part.document.under members name = .plain := by
        simp [Part.under, Part.known, get?_cons, Ne.symm isPaths, Ne.symm isComponents]
      have unread : isRead name = false := by simp [isRead, other, isPaths, isComponents]
      have kept : get? name (members.filter fun member => !isRead member.1) = some child := by
        rw [distinct.1.get?_filter, there]
        simp [unread]
      rw [plain, written, List.cons_append, get?_cons, if_neg (Ne.symm other), get?_append, kept,
        Option.some_or]
      exact Part.mirrors_plain child

/-- Reading a text and writing the document keeps the scalar values that `Part.keeps` says, and no
others, apart from the version: a text, a number or a truth value that a path leads to in the value
of the text stands under the same path in what is written exactly if reading keeps it. -/
theorem written_iff_keeps {text : String} {value : Json} {document : Document}
    (parsed : Yaml.toJson? text = some value) (read : ofText text = .ok document)
    {path : List Json.Step} {scalar : Json} (leads : value.at? path = some scalar)
    (isScalar : scalar.isScalar = true) (other : path ≠ [.key "openapi"]) :
    document.toJson.at? path = some scalar ↔ Part.document.keeps path value = true := by
  have distinct := Yaml.distinctKeys_of_toJson? parsed
  rw [ofText, parsed] at read
  change ofJson value = .ok document at read
  have sound := sound_of_ofJson distinct read
  cases value with
  | object members =>
      have keys := (Json.distinctMap_iff_distinctKeys members).mpr distinct
      rw [toJson_eq sound.settled sound.maps]
      cases path with
      | nil =>
          cases leads
          cases isScalar
      | cons step rest =>
          rcases Option.bind_eq_some_iff.mp leads with ⟨child, there, deeper⟩
          cases step with
          | index => cases there
          | key name =>
              -- Nothing stands inside the version, so that a path through it ends there.
              have named : name ≠ "openapi" := by
                rintro rfl
                rw [ofJson] at read
                rcases bind_eq_ok_iff.mp read with ⟨openapi, version, _⟩
                have last := Json.eq_nil_of_at?_isScalar (isScalar_of_versionOf version there) deeper
                exact other (last ▸ rfl)
              have mirrors := mirrors_ofMembers keys read there named rest scalar deeper isScalar
              rw [Json.at?_cons, Json.step?_key_object, mirrors, Part.keeps, there]
              rfl
  | _ => cases read

end Document

/-! ## A text that is dropped in part -/

namespace Numbered

/-- A text with an operation whose identifier is a number. -/
def text : String :=
  "openapi: 3.0.1\npaths:\n  /jobs:\n    get:\n      operationId: 42\n      summary: List jobs\n"

/-- The path to a member of the operation. -/
def pathTo (key : String) : List Json.Step :=
  [.key "paths", .key "/jobs", .key "get", .key key]

theorem exists_read :
    ∃ value document, Yaml.toJson? text = some value ∧ Document.ofText text = .ok document ∧
      value.at? (pathTo "operationId") = some (.integer 42) ∧
      document.toJson.at? (pathTo "operationId") = none ∧
      value.at? (pathTo "summary") = some (.string "List jobs") ∧
      Part.document.keeps (pathTo "summary") value = true := by
  have evaluated : ((Yaml.toJson? text).any fun value =>
      (Document.ofText text).toOption.any fun document =>
        (value.at? (pathTo "operationId")).any (Json.integer 42).same &&
          (document.toJson.at? (pathTo "operationId")).isNone &&
          ((value.at? (pathTo "summary")).bind Json.string? == some "List jobs") &&
          Part.document.keeps (pathTo "summary") value) = true := by
    decide +kernel
  obtain ⟨value, parsed, evaluated⟩ := (Option.any_eq_true _ _).mp evaluated
  obtain ⟨document, read, evaluated⟩ := any_toOption_iff.mp evaluated
  simp only [Bool.and_eq_true, Option.any_eq_true, Option.isNone_iff_eq_none, beq_iff_eq,
    Option.bind_eq_some_iff] at evaluated
  obtain ⟨⟨⟨⟨number, there, same⟩, dropped⟩, summary, found, known⟩, kept⟩ := evaluated
  rw [Json.eq_integer_of_same same] at there
  rw [Json.eq_string_of_string? known] at found
  exact ⟨value, document, parsed, read, there, dropped, found, kept⟩

end Numbered

open Numbered in
/-- The summary of the operation is written where it stood. -/
theorem summary_written :
    ∃ value document, Yaml.toJson? text = some value ∧ Document.ofText text = .ok document ∧
      value.at? (pathTo "summary") = some (.string "List jobs") ∧
      (Json.string "List jobs").isScalar = true ∧ pathTo "summary" ≠ [.key "openapi"] ∧
      document.toJson.at? (pathTo "summary") = some (.string "List jobs") := by
  obtain ⟨value, document, parsed, read, _, _, leads, kept⟩ := exists_read
  have other : pathTo "summary" ≠ [.key "openapi"] := by decide
  exact ⟨value, document, parsed, read, leads, rfl, other,
    (Document.written_iff_keeps parsed read leads rfl other).mpr kept⟩

open Numbered in
/-- The number that stands for its identifier is neither refused nor written. -/
theorem operationId_dropped :
    ∃ value document, Yaml.toJson? text = some value ∧ Document.ofText text = .ok document ∧
      value.at? (pathTo "operationId") = some (.integer 42) ∧
      (Json.integer 42).isScalar = true ∧ pathTo "operationId" ≠ [.key "openapi"] ∧
      document.toJson.at? (pathTo "operationId") = none := by
  obtain ⟨value, document, parsed, read, there, dropped, _, _⟩ := exists_read
  exact ⟨value, document, parsed, read, there, rfl, by decide, dropped⟩

end SchemaLift
