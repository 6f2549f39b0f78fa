import SchemaLift.Proofs.Document.RoundTrip
import SchemaLift.Proofs.Schema.Reordered

/-!
# Documents, read whatever the order of members

A value and the value with its members in another order, at any depth, are read as equal documents,
or neither is read (`Document.readsAlike`). Which of several faults is reported may depend on the
order.

Parts in which no path item stands are read by lookups and filters, like schemas. Path items contain
path items, so that what is read of them follows from what is read of the values inside
(`PathItem.readsAlike`).
-/

namespace SchemaLift

open Json (Reordered ReorderedMap)
open Members (get?)

theorem sameLists_iff_forall₂ {α : Type} {related : α → α → Bool} {left right : List α} :
    sameLists related left right = true ↔
      List.Forall₂ (fun value other => related value other = true) left right := by
  induction left generalizing right with
  | nil => cases right <;> simp [sameLists]
  | cons value rest ih =>
      cases right with
      | nil => simp [sameLists]
      | cons other others => simp [sameLists, ih]

/-! ## Entries, references and contents -/

theorem optionMapM_reordered {α : Type} {read : Json → Except Fault α} {same : α → α → Bool}
    {value other : Option Json} (reordered : Option.Rel Reordered value other)
    (each : ∀ inner outer, value = some inner → Reordered inner outer →
      Agree (fun result other => same result other = true) (read inner) (read outer)) :
    Agree (fun result other => sameOption same result other = true) (value.mapM read)
      (other.mapM read) := by
  cases reordered with
  | none => exact Agree.ok rfl
  | some fits =>
      rw [Option.mapM_some, Option.mapM_some]
      exact (each _ _ rfl fits).map fun _ _ same => same

theorem readIfObject_reordered {α : Type} {read : String → Json → Except Fault α}
    {same : α → α → Bool}
    (each : ∀ key value other, Reordered value other →
      Agree (fun entry other => same entry other = true) (read key value) (read key other))
    {value other : Option Json} (reordered : Option.Rel Reordered value other) :
    Agree (fun members others => Members.same same members others = true)
      (readIfObject read value) (readIfObject read other) := by
  cases reordered with
  | none => exact Agree.ok rfl
  | some fits =>
      cases fits.alike with
      | object inside =>
          have entries := Agree.readEntries inside.matching inside.distinct
            fun key value other _ fits => each key value other fits
          exact entries.mono fun members others =>
            (Members.same_iff_matches same members others).mpr
      | _ => exact Agree.ok rfl

namespace RefOr

variable {α : Type} {read : Members Json → Except Fault α} {fits : α → α → Bool}

theorem ofMembers_reordered (place : Place) {members others : Members Json}
    (reordered : ReorderedMap members others)
    (item : Agree (fun item other => fits item other = true) (read (withoutReference members))
      (read (withoutReference others))) :
    Agree (fun value other => RefOr.same fits value other = true)
      (ofJson place read (.object members)) (ofJson place read (.object others)) := by
  have target := Reference.ofMembers?_reordered reordered
  rw [ofJson, ofJson]
  generalize Reference.ofMembers? members = own, Reference.ofMembers? others = other at target
  cases target with
  | none => exact item.build fun _ _ same => same
  | some same => exact Agree.ok same

theorem ofJson_reordered (place : Place)
    (item : ∀ members others, ReorderedMap members others →
      Agree (fun item other => fits item other = true) (read members) (read others))
    {value other : Json} (reordered : Reordered value other) :
    Agree (fun value other => RefOr.same fits value other = true) (ofJson place read value)
      (ofJson place read other) := by
  cases reordered.alike with
  | object inside => exact ofMembers_reordered place inside (item _ _ (inside.moveToEnd "$ref"))
  | _ => exact Agree.error _ _

end RefOr

theorem readSchema?_reordered {value other : Option Json}
    (reordered : Option.Rel Reordered value other) :
    Agree (fun schema other => sameOption Schema.same schema other = true) (readSchema? value)
      (readSchema? other) := by
  cases reordered with
  | none => exact Agree.ok rfl
  | some fits => exact (Schema.readsAlike _ _ fits).build fun _ _ same => same

theorem MediaType.ofJson_reordered (name : String) {value other : Json}
    (reordered : Reordered value other) :
    Agree (fun media other => media.same other = true) (ofJson name value) (ofJson name other) := by
  cases reordered.alike with
  | null => exact Agree.ok rfl
  | object inside =>
      have extra := (inside.erase "schema").sameMap
      apply (readSchema?_reordered (inside.get? "schema")).build
      intro schema other same
      simp only [MediaType.same, same, extra, Bool.and_self]
  | _ => exact Agree.error _ _

theorem readContent_reordered {value other : Option Json}
    (reordered : Option.Rel Reordered value other) :
    Agree (fun content other => sameContent content other = true) (readContent value)
      (readContent other) := by
  cases reordered with
  | none => exact Agree.ok rfl
  | some fits =>
      cases fits.alike with
      | null => exact Agree.ok rfl
      | object inside =>
          have entries := Agree.readEntries inside.matching inside.distinct
            fun name value other _ fits => MediaType.ofJson_reordered name fits
          exact entries.build fun members others =>
            (Members.same_iff_matches MediaType.same members others).mpr
      | _ => exact Agree.error _ _

/-! ## Parameters, request bodies and responses -/

theorem Parameter.ofMembers_reordered {members others : Members Json}
    (reordered : ReorderedMap members others) :
    Agree (fun parameter other => parameter.same other = true) (ofMembers members)
      (ofMembers others) := by
  have extra := (reordered.filter leaves
    fun key value other fits => by simp [leaves, fits.string?_eq]).sameMap
  rw [ofMembers_eq reordered.distinct, ofMembers_eq reordered.distinct_right]
  apply (readSchema?_reordered (reordered.get? "schema")).bind
  intro schema schemaOther sameSchema
  apply (readContent_reordered (reordered.get? "content")).build
  intro content contentOther sameContent
  simp only [same, reordered.string?_eq, sameSchema, sameContent, extra, beq_self_eq_true,
    Bool.and_self]

theorem Parameter.listOf_reordered {value other : Option Json}
    (reordered : Option.Rel Reordered value other) :
    Agree (fun parameters others => sameLists (RefOr.same Parameter.same) parameters others = true)
      (listOf value) (listOf other) := by
  cases reordered with
  | none => exact Agree.ok rfl
  | some fits =>
      cases fits.alike with
      | null => exact Agree.ok rfl
      | array each =>
          have all := Agree.mapM each fun value _ other fits =>
            RefOr.ofJson_reordered .parameter (fun _ _ => ofMembers_reordered) fits
          exact all.mono fun _ _ => sameLists_iff_forall₂.mpr
      | _ => exact Agree.error _ _

theorem RequestBody.ofJson_reordered {value other : Json} (reordered : Reordered value other) :
    Agree (fun body other => RefOr.same RequestBody.same body other = true) (ofJson value)
      (ofJson other) := by
  apply RefOr.ofJson_reordered .requestBody _ reordered
  intro members others inside
  have extra := (inside.erase "content").sameMap
  apply (readContent_reordered (inside.get? "content")).build
  intro content other same
  simp only [RequestBody.same, same, extra, Bool.and_self]

theorem Response.ofJson_reordered {value other : Json} (reordered : Reordered value other) :
    Agree (fun response other => RefOr.same Response.same response other = true) (ofJson value)
      (ofJson other) := by
  apply RefOr.ofJson_reordered .response _ reordered
  intro members others inside
  have extra := (inside.erase "content").sameMap
  apply (readContent_reordered (inside.get? "content")).build
  intro content other same
  simp only [Response.same, same, extra, Bool.and_self]

/-! ## Path items -/

/-- However the members in a value are ordered, the same is read of it, as a path item or as a part
of one. -/
structure PathItem.ReadsAlike (value : Json) : Prop where
  item : ∀ place path other, Reordered value other →
    Agree (fun item other => item.same other = true) (PathItem.ofJson place path value)
      (PathItem.ofJson place path other)
  operation : ∀ path method other, Reordered value other →
    Agree (fun operation other => operation.same other = true) (Operation.ofJson path method value)
      (Operation.ofJson path method other)
  callback : ∀ other, Reordered value other →
    Agree (fun callback other => RefOr.same Callback.same callback other = true)
      (Callback.ofJson value) (Callback.ofJson other)
  callbacks : ∀ entries others, value = .object entries → ReorderedMap entries others →
    Agree (fun callbacks others =>
        Members.same (RefOr.same Callback.same) callbacks others = true)
      (callbacksOf entries) (callbacksOf others)

section Inside

variable {members others : Members Json} (reordered : ReorderedMap members others)
  (each : ∀ name value, (name, value) ∈ members → PathItem.ReadsAlike value)

include reordered each

theorem operationAt_reordered (path : String) (method : Method) :
    Agree (fun operation other => sameOption Operation.same operation other = true)
      (operationAt path method members) (operationAt path method others) := by
  rw [operationAt_eq_mapM, operationAt_eq_mapM]
  refine optionMapM_reordered (reordered.get? method.key) fun value other found fits => ?_
  exact (each _ _ (Members.mem_of_get?_eq_some found)).operation path method other fits

theorem operationsIn_reordered (path : String) (methods : List Method) :
    Agree (fun operations others => sameOperations operations others = true)
      (operationsIn path members methods) (operationsIn path others methods) := by
  simp only [sameOperations_eq, sameLists_iff_forall₂]
  induction methods with
  | nil => exact Agree.ok List.Forall₂.nil
  | cons method rest ih =>
      rw [operationsIn, operationsIn]
      apply (operationAt_reordered reordered each path method).bind
      intro own other same
      apply ih.build
      intro operations others later
      rw [sameOption_iff_optionRel] at same
      cases same with
      | none => exact later
      | some same => exact List.Forall₂.cons (by simpa using same) later

theorem callbacks_reordered :
    Agree (fun callbacks others =>
        Members.same (RefOr.same Callback.same) callbacks others = true)
      (readIfObject (fun _ => Callback.ofJson) (get? "callbacks" members))
      (readIfObject (fun _ => Callback.ofJson) (get? "callbacks" others)) := by
  refine reordered.cases_get? "callbacks" ?_ fun _ _ inside fits => ?_
  · exact Agree.ok rfl
  · cases fits.alike with
    | object below =>
        rw [readIfObject, readIfObject, ← callbacksOf_eq, ← callbacksOf_eq]
        exact (each _ _ inside).callbacks _ _ rfl below
    | _ => exact Agree.ok rfl

/-- The operation that an object is. -/
theorem Operation.object_readsAlike (path : String) (method : Method) :
    Agree (fun operation other => operation.same other = true)
      (ofJson path method (.object members)) (ofJson path method (.object others)) := by
  have extra := (reordered.filter (fun member => !readKeys.contains member.1)
    fun _ _ _ _ => rfl).sameMap
  rw [ofJson_object_eq, ofJson_object_eq]
  apply (Parameter.listOf_reordered (reordered.get? "parameters")).bind
  intro parameters parametersOther sameParameters
  apply (optionMapM_reordered (reordered.get? "requestBody")
    fun _ _ _ => RequestBody.ofJson_reordered).bind
  intro requestBody requestBodyOther sameBody
  apply (readIfObject_reordered (fun _ _ _ => Response.ofJson_reordered)
    (reordered.get? "responses")).bind
  intro responses responsesOther sameResponses
  apply (callbacks_reordered reordered each).build
  intro callbacks callbacksOther sameCallbacks
  simp only [same_eq, reordered.string?_eq, sameParameters, sameBody, sameResponses,
    sameCallbacks, extraOf, extra, beq_self_eq_true, Bool.and_self]

/-- The path item that an object is. -/
theorem PathItem.object_readsAlike (place : Place) (path : String) :
    Agree (fun item other => item.same other = true) (ofJson place path (.object members))
      (ofJson place path (.object others)) := by
  have extra := (reordered.filter (fun member =>
    member.1 ≠ "parameters" && !(Method.all.map Method.key).contains member.1)
    fun _ _ _ _ => rfl).sameMap
  rw [ofJson_object_eq, ofJson_object_eq]
  apply (Parameter.listOf_reordered (reordered.get? "parameters")).bind
  intro parameters parametersOther sameParameters
  apply (operationsIn_reordered reordered each path Method.all).build
  intro operations operationsOther sameOperations
  simp only [same, sameParameters, sameOperations, extraOf, extra, Bool.and_self]

/-- The callback that an object is. -/
theorem Callback.object_readsAlike :
    Agree (fun callback other => RefOr.same Callback.same callback other = true)
      (ofJson (.object members)) (ofJson (.object others)) := by
  rw [ofJson_object_eq reordered.distinct, ofJson_object_eq reordered.distinct_right]
  apply RefOr.ofMembers_reordered .callback reordered
  have moved := reordered.moveToEnd "$ref"
  have entries := Agree.readEntries moved.matching moved.distinct
    fun path value other present fits =>
      (each path value ((Members.mem_moveToEnd reordered.distinct).mp present)).item
        (.callbackItem path) path other fits
  apply entries.map
  intro items others same
  rw [same_eq]
  exact (Members.same_iff_matches PathItem.same items others).mpr same

theorem Callback.entries_readAlike :
    Agree (fun callbacks others =>
        Members.same (RefOr.same Callback.same) callbacks others = true)
      (callbacksOf members) (callbacksOf others) := by
  rw [callbacksOf_eq, callbacksOf_eq]
  have entries := Agree.readEntries reordered.matching reordered.distinct
    fun name value other present fits => (each name value present).callback other fits
  exact entries.mono fun _ _ => (Members.same_iff_matches _ _ _).mpr

end Inside

theorem PathItem.readsAlike (value : Json) : ReadsAlike value := by
  induction value using Json.induction with
  | step value ih =>
      have each : ∀ name inner, (name, inner) ∈ value.members → ReadsAlike inner := by
        intro name inner present
        cases value with
        | object => exact ih inner (List.mem_map_of_mem present)
        | _ => cases present
      constructor
      · intro place path other reordered
        cases reordered.alike with
        | object inside => exact object_readsAlike inside each place path
        | _ => exact Agree.error _ _
      · intro path method other reordered
        cases reordered.alike with
        | object inside => exact Operation.object_readsAlike inside each path method
        | _ => exact Agree.error _ _
      · intro other reordered
        cases reordered.alike with
        | object inside => exact Callback.object_readsAlike inside each
        | _ => exact Agree.error _ _
      · rintro entries others rfl inside
        exact Callback.entries_readAlike inside each

/-! ## Whole documents -/

theorem Components.same_default : Components.same {} {} = true := by
  simp [same, Schema.sameMap_eq, Members.same, Json.sameMap, Json.sameMembers]

theorem Components.ofMembers_reordered {members others : Members Json}
    (reordered : ReorderedMap members others) :
    Agree (fun components other => components.same other = true) (ofMembers members)
      (ofMembers others) := by
  have extra := (reordered.filter (fun member => !isRead member.1)
    fun _ _ _ _ => rfl).sameMap
  have schema : ∀ name value other, Reordered value other →
      Agree (fun schema other => Schema.same schema other = true) (schemaOf name value)
        (schemaOf name other) :=
    fun name value other fits => (Schema.readsAlike value other fits).mapError _ _
  apply (readIfObject_reordered schema (reordered.get? "schemas")).bind
  intro schemas schemasOther sameSchemas
  apply (readIfObject_reordered (fun _ _ _ => RequestBody.ofJson_reordered)
    (reordered.get? "requestBodies")).bind
  intro bodies bodiesOther sameBodies
  apply (readIfObject_reordered (fun _ _ _ => Response.ofJson_reordered)
    (reordered.get? "responses")).build
  intro responses responsesOther sameResponses
  simp only [same, Schema.sameMap_eq, sameSchemas, sameBodies, sameResponses, extra, Bool.and_self]

namespace Document

/-- The zeros, which are equal numbers of different texts, are no versions. -/
theorem startsWith_numberText_zero {value : Binary64} (zero : value.significand = 0) :
    Text.startsWith "3." (Json.numberText (.binary64 value)) = false := by
  rcases value with ⟨negative, significand, exponent⟩
  obtain rfl : significand = 0 := zero
  cases negative <;> simp [Json.numberText, Binary64.render, Text.startsWith, List.isPrefixOf]

/-- Equal numbers are the same version, or no version. -/
theorem numberText_eq_or {number other : Number} (same : number.same other = true) :
    Json.numberText number = Json.numberText other ∨
      Text.startsWith "3." (Json.numberText number) = false ∧
        Text.startsWith "3." (Json.numberText other) = false := by
  cases number <;> cases other <;>
    simp only [Number.same, Binary64.same, Bool.or_eq_true, Bool.and_eq_true, beq_iff_eq,
      Bool.false_eq_true] at same
  case integer.integer =>
    subst same
    exact Or.inl rfl
  case binary64.binary64 =>
    rcases same with ⟨left, right⟩ | rfl
    · exact Or.inr ⟨startsWith_numberText_zero left, startsWith_numberText_zero right⟩
    · exact Or.inl rfl

section Members

variable {members others : Members Json} (reordered : ReorderedMap members others)

include reordered

theorem versionOf_reordered :
    Agree (fun version other => version = other) (versionOf members) (versionOf others) := by
  rw [versionOf, versionOf]
  refine reordered.cases_get? "openapi" ?_ fun _ _ _ fits => ?_
  · exact Agree.error _ _
  · cases fits.alike with
    | string version => exact Agree.refl _ fun _ => rfl
    | number same =>
        rcases numberText_eq_or same with equal | ⟨left, right⟩
        · simp only [equal]
          exact Agree.refl _ fun _ => rfl
        · simp only [pure_bind, left, right]
          exact Agree.error _ _
    | _ => exact Agree.error _ _

theorem pathsOf_reordered :
    Agree (fun paths others => Members.same PathItem.same paths others = true) (pathsOf members)
      (pathsOf others) := by
  rw [pathsOf, pathsOf]
  refine reordered.cases_get? "paths" ?_ fun _ _ _ fits => ?_
  · exact Agree.ok rfl
  · cases fits.alike with
    | null => exact Agree.ok rfl
    | object inside =>
        have entries := Agree.readEntries inside.matching inside.distinct
          fun path value other _ fits =>
            (PathItem.readsAlike value).item (.pathItem path) path other fits
        exact entries.mono fun _ _ => (Members.same_iff_matches _ _ _).mpr
    | _ => exact Agree.error _ _

theorem componentsOf_reordered :
    Agree (fun components other => components.same other = true) (componentsOf members)
      (componentsOf others) := by
  rw [componentsOf, componentsOf]
  refine reordered.cases_get? "components" ?_ fun _ _ _ fits => ?_
  · exact Agree.ok Components.same_default
  · cases fits.alike with
    | null => exact Agree.ok Components.same_default
    | object inside => exact Components.ofMembers_reordered inside
    | _ => exact Agree.error _ _

theorem object_readsAlike :
    Agree (fun document other => document.same other = true) (ofJson (.object members))
      (ofJson (.object others)) := by
  have extra := (reordered.filter (fun member => !isRead member.1)
    fun _ _ _ _ => rfl).sameMap
  apply (versionOf_reordered reordered).bind
  rintro version _ rfl
  apply ((pathsOf_reordered reordered).mapError _ _).bind
  intro paths pathsOther samePaths
  apply ((componentsOf_reordered reordered).mapError _ _).build
  intro components componentsOther sameComponents
  simp only [same, sameItems_eq, samePaths, sameComponents, extra, beq_self_eq_true, Bool.and_self]

end Members

theorem readsAlike {value other : Json} (reordered : Reordered value other) :
    Agree (fun document other => document.same other = true) (ofJson value) (ofJson other) := by
  cases reordered.alike with
  | object inside => exact object_readsAlike inside
  | _ => exact Agree.error _ _

/-- The order of members does not change what is read. A value in which no object has a key twice
and a value that is equal up to the order of members, at any depth, are read as equal documents or
are both refused, and likewise as equal schemas. -/
theorem agree_of_same {value other : Json} (distinct : value.DistinctKeys)
    (equal : value.same other = true) :
    Agree (fun document other => document.same other = true) (ofJson value) (ofJson other) ∧
      Agree (fun schema other => schema.same other = true) (Schema.ofJson value)
        (Schema.ofJson other) :=
  ⟨readsAlike ⟨distinct, equal⟩, Schema.readsAlike value other ⟨distinct, equal⟩⟩

end Document

namespace Library

/-- A text or a number. -/
def leaf (name : String) : Json :=
  .object [("type", .string name)]

/-- A document with one schema, given the members of the schema and of its properties. -/
def ofMembers (members properties : Members Json) : Members Json :=
  [("openapi", .string "3.1.0"),
    ("components", .object [("schemas", .object
      [("Book", .object (members ++ [("properties", .object properties)]))])])]

/-- A book, in which a `$ref` is no reference. -/
def book : Json :=
  .object (ofMembers [("$ref", .null), ("type", .string "object"), ("x-shelf", .string "A")]
    [("title", leaf "string"), ("pages", leaf "integer")])

/-- The same, the other way round at each level. -/
def rearranged : Json :=
  .object (ofMembers [("x-shelf", .string "A"), ("type", .string "object"), ("$ref", .null)]
    [("pages", leaf "integer"), ("title", leaf "string")]).reverse

theorem distinctKeys_book : book.DistinctKeys := by
  have text : ∀ text, (Json.string text).DistinctKeys := fun _ =>
    Json.distinctKeys_of_parts_eq_nil rfl
  have null : Json.null.DistinctKeys := Json.distinctKeys_of_parts_eq_nil rfl
  simp [book, ofMembers, leaf, ← Json.distinctMap_iff_distinctKeys, Json.distinctMap_cons_iff,
    Json.distinctMap_nil, text, null]

theorem same_rearranged : book.same rearranged = true := by
  decide

/-- A book is read as a document, the same as the rearranged one. -/
theorem agree_rearranged :
    book.DistinctKeys ∧ book.same rearranged = true ∧
      (Document.ofJson book).toOption.isSome = true ∧
      Agree (fun document other => document.same other = true) (Document.ofJson book)
        (Document.ofJson rearranged) ∧
      Agree (fun schema other => schema.same other = true) (Schema.ofJson book)
        (Schema.ofJson rearranged) :=
  ⟨distinctKeys_book, same_rearranged, by decide,
    Document.agree_of_same distinctKeys_book same_rearranged⟩

end Library

end SchemaLift
