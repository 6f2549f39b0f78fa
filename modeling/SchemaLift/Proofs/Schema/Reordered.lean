import SchemaLift.Proofs.Agreement
import SchemaLift.Proofs.Json.Reordered
import SchemaLift.Proofs.Schema.Variants

/-!
# Schemas, read whatever the order of members

A value and the value with its members in another order are read as equal schemas, or neither is
read (`Schema.readsAlike`). An object is read by lookups among its members and by filters
(`Schema.ofJson_object_eq`), and these find and keep the same whatever the order. The schemas inside
stand under the keywords that are looked up, so the induction is on the values inside a value.
-/

namespace SchemaLift

open Json (Reordered ReorderedMap Alike)

theorem sameOption_iff_optionRel {α : Type} {related : α → α → Bool} {left right : Option α} :
    sameOption related left right = true ↔
      Option.Rel (fun value other => related value other = true) left right := by
  cases left <;> cases right <;> simp [sameOption]

/-! ## Mappings of discriminators -/

namespace Discriminator

/-- The entries of a mapping that count are the texts. -/
def mappingOf : Option Json → List (String × String)
  | some (.object entries) =>
    entries.filterMap fun entry => entry.2.string?.map fun target => (entry.1, target)
  | _ => []

theorem mem_mappingOf_iff {entries : Members Json} {name target : String} :
    (name, target) ∈ mappingOf (some (.object entries)) ↔
      (name, Json.string target) ∈ entries := by
  rw [mappingOf, List.mem_filterMap]
  constructor
  · rintro ⟨⟨key, value⟩, inside, same⟩
    cases value <;> simp [Json.string?] at same
    rcases same with ⟨rfl, rfl⟩
    exact inside
  · exact fun inside => ⟨_, inside, rfl⟩

theorem length_mappingOf (entries : Members Json) :
    (mappingOf (some (.object entries))).length =
      (entries.filter fun entry => entry.2.string?.isSome).length := by
  simp [mappingOf, List.length_filterMap_eq_countP, List.countP_eq_length_filter]

theorem mappingOf_reordered {value other : Option Json}
    (reordered : Option.Rel Reordered value other) :
    Members.Matches (fun target other => target = other) (mappingOf value) (mappingOf other) := by
  have none : Members.Matches (fun target other : String => target = other)
      ([] : List (String × String)) [] := ⟨rfl, by simp⟩
  cases reordered with
  | none => exact none
  | some fits =>
      cases fits.alike with
      | @object members others inside =>
          have texts := inside.filter (fun entry => entry.2.string?.isSome)
            fun key value other fits => by rw [fits.string?_eq]
          have names : Members.Distinct (mappingOf (some (.object others))) :=
            inside.distinct_right.sublist (keys_mapping_sublist others)
          constructor
          · rw [length_mappingOf, length_mappingOf, texts.matching.1]
          · intro name target present
            rcases inside.matching.2 name _ (mem_mappingOf_iff.mp present) with ⟨_, found, fits⟩
            cases fits.alike
            have there := mem_mappingOf_iff.mpr (Members.mem_of_get?_eq_some found)
            exact ⟨target, names.get?_eq_some there, rfl⟩
      | _ => exact none

end Discriminator

/-! ## Data -/

section Data

variable {members others : Members Json} (reordered : ReorderedMap members others)

include reordered

/-- Members are a reference in any order, or in none. -/
theorem Reference.ofMembers?_reordered :
    Option.Rel (fun target other => target.same other = true) (ofMembers? members)
      (ofMembers? others) := by
  have rest := (reordered.erase "$ref").sameMap
  rw [ofMembers?, ofMembers?]
  refine reordered.cases_get? "$ref" ?_ fun _ _ _ fits => ?_
  · exact Option.Rel.none
  · cases fits.alike with
    | string pointer => exact Option.Rel.some (by simp [same, rest])
    | _ => exact Option.Rel.none

theorem DeclaredType.ofMembers_reordered : ofMembers members = ofMembers others := by
  rw [ofMembers, ofMembers]
  refine reordered.cases_get? Keyword.type.text ?_ fun _ _ _ fits => ?_
  · rfl
  · cases fits.alike with
    | array each => simp only [fits.strings?_eq]
    | _ => rfl

theorem Metadata.ofMembers_reordered :
    Agree (fun metadata other => metadata.same other = true) (ofMembers members)
      (ofMembers others) := by
  have keywords := DeclaredType.ofMembers_reordered reordered
  rw [ofMembers_eq reordered.distinct, ofMembers_eq reordered.distinct_right, keywords]
  apply (Agree.refl _ (Eq.refl ·)).build
  rintro declared _ rfl
  have value : ∀ key, sameOption Json.same (Members.get? key members) (Members.get? key others) :=
    fun key => sameOption_iff_optionRel.mpr
      (optionRel_mono (reordered.get? key) fun _ _ fits => fits.same)
  have extensions := (reordered.filter (fun member => isExtension member.1)
    fun _ _ _ _ => rfl).sameMap
  have extra := (reordered.filter (fun member => !isExtension member.1 && !takes member)
    fun key value other fits => by simp [takes, fits.string?_eq, fits.bool?_eq]).sameMap
  simp only [same, reordered.string?_eq, reordered.bool?_eq, value, extensions, extra,
    beq_self_eq_true, Bool.and_self]

theorem Discriminator.ofMembers_reordered :
    Agree (fun discriminator other => sameOption same discriminator other = true)
      (ofMembers members) (ofMembers others) := by
  rw [ofMembers, ofMembers]
  refine reordered.cases_get? Keyword.discriminator.text ?_ fun _ _ _ fits => ?_
  · exact Agree.ok rfl
  · cases fits.alike with
    | null => exact Agree.ok rfl
    | @object own theirs inside =>
        simp only [Members.takeAs_eq inside.distinct, Members.takeAs_eq inside.distinct_right,
          inside.string?_eq, Members.take]
        have rest := inside.filter
          (fun member => !(member.1 == "propertyName" && member.2.string?.isSome))
          fun key value other fits => by simp [fits.string?_eq]
        cases (Members.get? "propertyName" theirs).bind Json.string? with
        | none => exact Agree.error _ _
        | some name =>
            apply Agree.ok
            have mapping := mappingOf_reordered (rest.get? "mapping")
            exact (same_iff _ _).mpr ⟨rfl, mapping, (rest.erase "mapping").sameMap⟩
    | _ => exact Agree.error _ _

theorem PrimitiveSchema.enumValuesOf_reordered :
    Agree (List.Forall₂ Reordered) (enumValuesOf members) (enumValuesOf others) := by
  rw [enumValuesOf, enumValuesOf]
  refine reordered.cases_get? Keyword.enumeration.text ?_ fun _ _ _ fits => ?_
  · exact Agree.ok List.Forall₂.nil
  · cases fits.alike with
    | array each => exact Agree.ok each
    | _ => exact Agree.error _ _

end Data

namespace Schema

/-! ## What variants leave over -/

section Rest

variable {members others : Members Json} (reordered : ReorderedMap members others)

include reordered

theorem requiredIn_reordered : requiredIn members = requiredIn others := by
  rw [requiredIn, requiredIn, reordered.strings?_eq]

theorem combines_reordered : combines members = combines others := by
  simp only [combines, reordered.has_eq]

theorem leftOver_reordered (settled : List String) {typed : String × Json → Bool}
    (fair : ∀ key value other, Reordered value other → typed (key, value) = typed (key, other)) :
    ReorderedMap (leftOver settled typed members) (leftOver settled typed others) :=
  (reordered.moveToEnd "$ref").filter _ fun key value other fits => by
    rw [fair key value other fits]

/-- The metadata that a variant leaves over. -/
theorem metadata_reordered (settled : List String) {typed : String × Json → Bool}
    (fair : ∀ key value other, Reordered value other → typed (key, value) = typed (key, other)) :
    Agree (fun metadata other => metadata.same other = true)
      (Metadata.ofMembers (leftOver settled typed members))
      (Metadata.ofMembers (leftOver settled typed others)) :=
  Metadata.ofMembers_reordered (leftOver_reordered reordered settled fair)

end Rest

theorem isRequired_reordered (key : String) (value other : Json) (fits : Reordered value other) :
    isRequired (key, value) = isRequired (key, other) := by
  simp only [isRequired, fits.strings?_eq]

theorem isFormat_reordered (key : String) (value other : Json) (fits : Reordered value other) :
    isFormat (key, value) = isFormat (key, other) := by
  simp only [isFormat, fits.string?_eq]

/-! ## Schemas inside a schema -/

/-- However the members in a value are ordered, it is read as an equal schema, or is not read. -/
def ReadsAlike (value : Json) : Prop :=
  ∀ other, Reordered value other →
    Agree (fun schema other => schema.same other = true) (ofJson value) (ofJson other)

theorem ofElements_eq_mapM (elements : List Json) : ofElements elements = elements.mapM ofJson := by
  induction elements with
  | nil => rfl
  | cons element rest ih => rw [ofElements, List.mapM_cons, ih]

theorem ofEntries_eq_readEntries (entries : Members Json) :
    ofEntries entries =
      readEntries (fun name value => (ofJson value).mapError (.inProperty name)) entries := by
  induction entries with
  | nil => rfl
  | cons entry rest ih => rw [ofEntries, readEntries, ih]

theorem sameMap_iff_matches (left right : List (String × Schema)) :
    (left.length == right.length && sameProperties left right) = true ↔
      Members.Matches (fun schema other => schema.same other = true) left right := by
  rw [Bool.and_eq_true, sameProperties_iff, beq_iff_eq]
  rfl

section Inside

variable {members others : Members Json} (reordered : ReorderedMap members others)
  (each : ∀ name value, (name, value) ∈ members →
    ReadsAlike value ∧ ∀ part ∈ value.parts, ReadsAlike part)

include reordered each

theorem listAt_reordered (keyword : Keyword) :
    Agree (fun schemas others => sameList schemas others = true) (listAt keyword members)
      (listAt keyword others) := by
  rw [listAt_eq, listAt_eq]
  refine reordered.cases_get? keyword.text ?_ fun _ _ inside fits => ?_
  · exact Agree.ok (by rw [sameList])
  · cases fits.alike with
    | null => exact Agree.ok (by rw [sameList])
    | @array elements _ all =>
        simp only [ofElements_eq_mapM]
        apply (Agree.mapM all fun element present => (each _ _ inside).2 element present).mono
        exact fun schemas others => (sameList_iff_forall₂ schemas others).mpr
    | _ => exact Agree.error _ _

theorem itemsIn_reordered :
    Agree (fun items others => sameItems items others = true) (itemsIn members)
      (itemsIn others) := by
  rw [itemsIn_eq, itemsIn_eq]
  refine reordered.cases_get? "items" ?_ fun _ _ inside fits => ?_
  · exact Agree.ok (by rw [sameItems])
  · exact ((each _ _ inside).1 _ fits).build fun _ _ same => by rwa [sameItems]

theorem propertiesIn_reordered :
    Agree (Members.Matches fun schema other => schema.same other = true) (propertiesIn members)
      (propertiesIn others) := by
  rw [propertiesIn_eq, propertiesIn_eq]
  have none : Agree (Members.Matches fun schema other => schema.same other = true)
      (Except.ok [] : Except Fault (List (String × Schema)))
      (Except.ok [] : Except Fault (List (String × Schema))) := Agree.ok ⟨rfl, by simp⟩
  refine reordered.cases_get? Keyword.properties.text ?_ fun _ _ inside fits => ?_
  · exact none
  · cases fits.alike with
    | null => exact none
    | @object entries _ all =>
        simp only [ofEntries_eq_readEntries]
        apply Agree.readEntries all.matching all.distinct
        intro name value other present same
        have reads := (each _ _ inside).2 value (List.mem_map_of_mem present)
        exact (reads other same).mapError _ _
    | _ => exact Agree.error _ _

theorem additionalIn_reordered :
    Agree (fun additional other => sameAdditional additional other = true) (additionalIn members)
      (additionalIn others) := by
  rw [additionalIn_eq, additionalIn_eq]
  refine reordered.cases_get? Keyword.additionalProperties.text ?_ fun _ _ inside fits => ?_
  · exact Agree.ok (by rw [sameAdditional])
  · cases fits.alike with
    | null => exact Agree.ok (by rw [sameAdditional])
    | bool allowed => exact Agree.ok (by simp [sameAdditional])
    | object => exact ((each _ _ inside).1 _ fits).build fun _ _ same => by rwa [sameAdditional]
    | _ => exact Agree.error _ _

/-! ## Variants -/

theorem combinationOf_reordered :
    Agree (fun schema other => schema.same other = true) (combinationOf members)
      (combinationOf others) := by
  have required := requiredIn_reordered reordered
  apply (listAt_reordered reordered each .allOf).bind
  intro allOf allOther sameAll
  apply (listAt_reordered reordered each .anyOf).bind
  intro anyOf anyOther sameAny
  apply (listAt_reordered reordered each .oneOf).bind
  intro oneOf oneOther sameOne
  apply (propertiesIn_reordered reordered each).bind
  intro properties propertiesOther sameProperties
  apply (Discriminator.ofMembers_reordered reordered).bind
  intro discriminator discriminatorOther sameDiscriminator
  apply (metadata_reordered reordered _ isRequired_reordered).build
  intro metadata metadataOther sameMetadata
  have named := (sameMap_iff_matches _ _).mpr sameProperties
  simp only [Bool.and_eq_true] at named
  simp only [same, sameAll, sameAny, sameOne, named, required, sameDiscriminator, sameMetadata,
    beq_self_eq_true, Bool.and_self]

theorem arrayOf_reordered :
    Agree (fun schema other => schema.same other = true) (arrayOf members) (arrayOf others) := by
  apply (itemsIn_reordered reordered each).bind
  intro items itemsOther sameItems
  apply (metadata_reordered reordered arrayKeys fun _ _ _ _ => rfl).build
  intro metadata metadataOther sameMetadata
  simp only [same, sameItems, sameMetadata, Bool.and_self]

omit each in
theorem leafOf_reordered :
    Agree (fun schema other => schema.same other = true) (leafOf members) (leafOf others) := by
  have format := reordered.string?_eq "format"
  apply (PrimitiveSchema.enumValuesOf_reordered reordered).bind
  intro values valuesOther sameValues
  apply (metadata_reordered reordered _ isFormat_reordered).build
  intro metadata metadataOther sameMetadata
  rw [same, PrimitiveSchema.same_iff]
  exact ⟨format, sameValues.imp fun _ _ fits => fits.same, sameMetadata⟩

omit each in
/-- An object that is not a map, once its properties are read. -/
theorem object_reordered {properties propertiesOther : List (String × Schema)}
    {additional additionalOther : AdditionalProperties}
    (named : Members.Matches (fun schema other => schema.same other = true) properties
      propertiesOther)
    (undeclared : sameAdditional additional additionalOther = true) :
    Agree (fun schema other => schema.same other = true)
      (do
        let discriminator ← Discriminator.ofMembers members
        let metadata ← Metadata.ofMembers (leftOver objectKeys isRequired members)
        pure (object ⟨properties, requiredIn members, additional, discriminator, metadata⟩))
      (do
        let discriminator ← Discriminator.ofMembers others
        let metadata ← Metadata.ofMembers (leftOver objectKeys isRequired others)
        pure (object ⟨propertiesOther, requiredIn others, additionalOther, discriminator,
          metadata⟩)) := by
  have required := requiredIn_reordered reordered
  apply (Discriminator.ofMembers_reordered reordered).bind
  intro discriminator discriminatorOther sameDiscriminator
  apply (metadata_reordered reordered _ isRequired_reordered).build
  intro metadata metadataOther sameMetadata
  have names := (sameMap_iff_matches _ _).mpr named
  simp only [Bool.and_eq_true] at names
  simp only [same, names, required, undeclared, sameDiscriminator, sameMetadata,
    beq_self_eq_true, Bool.and_self]

theorem objectOf_reordered :
    Agree (fun schema other => schema.same other = true) (objectOf members) (objectOf others) := by
  apply (propertiesIn_reordered reordered each).bind
  intro properties propertiesOther named
  apply (additionalIn_reordered reordered each).bind
  intro additional additionalOther undeclared
  have whole := object_reordered reordered named undeclared
  have alone : (properties.isEmpty && !Members.has "discriminator" members) =
      (propertiesOther.isEmpty && !Members.has "discriminator" others) := by
    rw [reordered.has_eq, isEmpty_eq_of_length_eq named.1]
  rw [alone]
  cases additional <;> cases additionalOther <;>
    simp only [sameAdditional, Bool.false_eq_true] at undeclared
  case values.values value valueOther =>
    cases propertiesOther.isEmpty && !Members.has "discriminator" others with
    | true =>
        apply (metadata_reordered reordered objectKeys fun _ _ _ _ => rfl).build
        intro metadata metadataOther sameMetadata
        simp only [same, undeclared, sameMetadata, Bool.and_self]
    | false => exact whole
  all_goals exact whole

/-- The schema that an object is. -/
theorem object_readsAlike :
    Agree (fun schema other => schema.same other = true) (ofJson (.object members))
      (ofJson (.object others)) := by
  have target := Reference.ofMembers?_reordered reordered
  cases found : Reference.ofMembers? members <;> cases there : Reference.ofMembers? others <;>
    rw [found, there] at target
  case some.some own other =>
    cases target with
    | some fits =>
        rw [ofJson, ofJson, found, there]
        exact Agree.ok (by rwa [same])
  case none.none =>
    rw [ofJson_object_eq reordered.distinct found, ofJson_object_eq reordered.distinct_right there,
      combines_reordered reordered, DeclaredType.ofMembers_reordered reordered]
    split
    · exact combinationOf_reordered reordered each
    · apply (Agree.refl _ (Eq.refl ·)).bind
      rintro declared _ rfl
      simp only [reordered.has_eq]
      split
      · exact arrayOf_reordered reordered each
      · split
        · exact objectOf_reordered reordered each
        · exact leafOf_reordered reordered
  all_goals cases target

end Inside

/-- A value and the value with its members in another order are read as equal schemas, or neither
is read. -/
theorem readsAlike (value : Json) : ReadsAlike value := by
  have both : ReadsAlike value ∧ ∀ part ∈ value.parts, ReadsAlike part := by
    induction value using Json.induction with
    | step value ih =>
        constructor
        · intro other reordered
          cases reordered.alike with
          | bool allowed => exact Agree.ok (by simp [same])
          | object inside =>
              apply object_readsAlike inside
              exact fun name value present => ih value (List.mem_map_of_mem present)
          | _ => exact Agree.error _ _
        · exact fun part inside => (ih part inside).1
  exact both.1

end Schema

end SchemaLift
