import SchemaLift.Proofs.Kept.Parts
import SchemaLift.Proofs.Schema.Distinct
import SchemaLift.Proofs.Schema.RoundTrip

/-!
# What reading keeps of schemas

What is written of a schema mirrors the value that the schema was read from
(`Schema.mirrors_of_ofJson`). A node keeps under its structural keys what is written of its
children, and all else among its metadata or as required properties or format
(`Schema.mirrors_of_settled`). Only a discriminator drops anything: of its mapping it keeps the
entries that are texts (`Discriminator.mirrors`).
-/

namespace SchemaLift

open Members

/-! ## References -/

/-- Nothing in a reference is interpreted, and all of it is kept. -/
theorem Reference.mirrors {part : Part} (refers : part.refers = true) {members : Members Json}
    (distinct : Distinct members) {target : Reference}
    (found : ofMembers? members = some target) :
    part.Mirrors (.object members) (some target.toJson) := by
  have accepted : part.accepts (.object members) = true := by
    cases part <;> first | rfl | cases refers
  apply Part.mirrors_object accepted
  intro name child there
  have plain : part.inside (.object members) (.key name) = .plain := by
    simp [Part.inside, refers, found]
  have written : target.toJson =
      .object (("$ref", .string target.pointer) :: erase "$ref" members) := by
    rw [ofMembers?] at found
    split at found
    · cases found
      exact toJson_eq (not_mem_keys_erase _ _) (distinct.erase _)
    · cases found
  have same : get? name (("$ref", .string target.pointer) :: erase "$ref" members) =
      some child := by
    rw [get?_cons]
    split
    · next same =>
        subst same
        rw [ofMembers?, there] at found
        split at found
        · next pointer same =>
            cases found
            exact same.symm
        · cases found
    · next differs => rw [get?_erase, if_neg (Ne.symm differs), there]
  rw [plain, written, Option.bind_some, Json.step?_key_object, same]
  exact Part.mirrors_plain child

/-! ## Discriminators -/

namespace Discriminator

/-- The entries that count of a mapping are its texts. -/
theorem get?_texts {entries : Members Json} (distinct : Distinct entries) (name : String) :
    get? name (entries.filterMap fun entry =>
      entry.2.string?.map fun target => (entry.1, target)) =
        (get? name entries).bind Json.string? := by
  induction entries with
  | nil => rfl
  | cons entry rest ih =>
      rcases entry with ⟨key, value⟩
      rcases List.nodup_cons.mp distinct with ⟨absent, apart⟩
      rw [List.filterMap_cons, get?_cons]
      cases text : value.string? with
      | none =>
          rw [Option.map_none, ih apart]
          split
          · next same =>
              rw [← same, get?_eq_none_iff.mpr absent, Option.bind_none, Option.bind_some, text]
          · rfl
      | some target =>
          rw [Option.map_some, get?_cons, ih apart]
          split
          · rw [Option.bind_some, text]
          · rfl

theorem get?_mappingMember (mapping : List (String × String)) :
    get? "mapping" (mappingMember mapping) =
      if mapValues Json.string mapping = [] then none
      else some (.object (mapValues Json.string mapping)) := by
  cases mapping <;> rfl

/-- The entries that count of what stands under `mapping`. -/
def textsOf : Option Json → List (String × String)
  | some (.object entries) =>
    entries.filterMap fun entry => entry.2.string?.map fun target => (entry.1, target)
  | _ => []

/-- The texts of a mapping are kept, and nothing else of it. -/
theorem mirrors_mapping {value : Json} (distinct : value.DistinctKeys) :
    (Part.map .text).Mirrors value (get? "mapping" (mappingMember (textsOf (some value)))) := by
  rw [get?_mappingMember]
  cases value with
  | object entries =>
      have keys := (Json.distinctMap_iff_distinctKeys entries).mpr distinct
      apply Part.Mirrors.unless_object
      apply Part.mirrors_object rfl
      intro name child there
      rw [Option.bind_some, Json.step?_key_object, get?_mapValues, textsOf, get?_texts keys.1,
        there]
      exact Part.mirrors_text child
  | _ => exact Part.mirrors_of_not_accepts rfl (by simp [textsOf, mapValues])

/-- What a discriminator is read from. -/
theorem exists_of_ofMembers {members : Members Json} {discriminator : Discriminator}
    (read : ofMembers members = .ok (some discriminator)) :
    ∃ own, get? "discriminator" members = some (.object own) ∧
      get? "propertyName" own = some (.string discriminator.propertyName) ∧
      discriminator.mapping = textsOf (get? "mapping" own) ∧
      discriminator.extra = erase "mapping" (erase "propertyName" own) := by
  rw [ofMembers] at read
  split at read
  · next own found =>
      refine ⟨own, found, ?_⟩
      rw [takeAs] at read
      cases named : get? "propertyName" own with
      | none => simp [named] at read
      | some value =>
          cases value with
          | string propertyName =>
              simp only [named, Option.bind_some, Json.string?, take, get?_erase] at read
              cases read
              exact ⟨rfl, rfl, rfl⟩
          | _ => simp [named, Json.string?] at read
  all_goals cases read

/-- What is written of a discriminator mirrors what it was read from. -/
theorem mirrors {members : Members Json} (distinct : Json.DistinctMap members) {value : Json}
    (found : get? "discriminator" members = some value) {discriminator : Option Discriminator}
    (read : ofMembers members = .ok discriminator) :
    Part.discriminator.Mirrors value (discriminator.map toJson) := by
  cases discriminator with
  | none =>
      rw [ofMembers, Keyword.text, found] at read
      cases value with
      | null => exact Part.mirrors_null
      | object own =>
          dsimp only at read
          split at read <;> cases read
      | _ => cases read
  | some discriminator =>
      have settled := settled_of_ofMembers read
      have apart := (distinctKeys_of_ofMembers read distinct).extra.1
      obtain ⟨own, same, named, mapping, extra⟩ := exists_of_ofMembers read
      cases found.symm.trans same
      rw [Option.map_some, toJson_eq settled apart]
      apply Part.mirrors_object rfl
      intro name child there
      rw [Option.bind_some, Json.step?_key_object, get?_cons, get?_append]
      by_cases isName : name = "propertyName"
      · subst isName
        cases named.symm.trans there
        exact Part.mirrors_plain _
      · by_cases isMapping : name = "mapping"
        · subst isMapping
          rw [if_neg (by decide), get?_eq_none_iff.mpr settled.mapping, Option.or_none, mapping,
            there]
          exact mirrors_mapping ((distinct.value found).get? there)
        · have plain : Part.discriminator.inside (.object own) (.key name) = .plain := by
            simp [Part.inside, Part.refers, Part.under, Part.known, get?_cons, Ne.symm isMapping]
          have front : get? name (mappingMember discriminator.mapping) = none := by
            unfold mappingMember
            split <;> simp [get?_cons, Ne.symm isMapping]
          rw [plain, if_neg (Ne.symm isName), front, Option.none_or, extra, get?_erase,
            if_neg isMapping, get?_erase, if_neg isName, there]
          exact Part.mirrors_plain child

end Discriminator

/-! ## Metadata -/

/-- The declared type is written as it was read. -/
theorem DeclaredType.toJson_of_ofMembers {members : Members Json} {value : Json}
    (found : get? "type" members = some value) {declared : Option DeclaredType}
    (read : ofMembers members = .ok declared) :
    declared.map toJson = some value ∨ value = .null := by
  rw [ofMembers, Keyword.text, found] at read
  cases value with
  | null => exact Or.inr rfl
  | string name =>
      cases read
      exact Or.inl rfl
  | array names =>
      dsimp only at read
      split at read
      · next texts known =>
          cases read
          rw [Json.eq_strings_of_strings? known]
          exact Or.inl rfl
      · cases read
  | _ => cases read

namespace Metadata

variable {members : Members Json} (distinct : Distinct members) {metadata : Metadata}
  (read : ofMembers members = .ok metadata)

include distinct read

/-- A typed value is written under its key as it was read. -/
theorem get?_typed {name : String} {value : Json} (found : get? name members = some value)
    (taken : takes (name, value) = true) :
    get? name (metadata.head none ++ metadata.flags) = some value ∨ value = .null := by
  rw [ofMembers_eq distinct] at read
  rcases bind_eq_ok_iff.mp read with ⟨declaredType, declared, read⟩
  cases pure_eq_ok_iff.mp read
  simp only [takes, Bool.or_eq_true, Bool.and_eq_true, List.contains_eq_mem, decide_eq_true_eq,
    List.mem_cons, List.not_mem_nil, or_false] at taken
  rcases taken with (whole | ⟨texts, text⟩) | ⟨flags, flag⟩
  · rcases whole with rfl | rfl | rfl
    · have own := DeclaredType.toJson_of_ofMembers found declared
      simpa [head, flags, get?_append] using own
    · exact Or.inl (by simp [head, flags, get?_append, found])
    · exact Or.inl (by simp [head, flags, get?_append, found])
  · rcases Option.isSome_iff_exists.mp text with ⟨own, text⟩
    cases Json.eq_string_of_string? text
    rcases texts with rfl | rfl <;>
      exact Or.inl (by simp [head, flags, get?_append, found, Json.string?])
  · rcases Option.isSome_iff_exists.mp flag with ⟨own, flag⟩
    cases Json.eq_bool_of_bool? flag
    rcases flags with rfl | rfl | rfl | rfl <;>
      exact Or.inl (by simp [head, Metadata.flags, get?_append, found, Json.bool?])

/-- All that metadata are read from is kept, apart from a declared type that is null. -/
theorem get?_own_of_ofMembers (settled : metadata.Settled) {name : String} {value : Json}
    (found : get? name members = some value) :
    get? name metadata.own = some value ∨ value = .null := by
  -- A value is typed, an extension or an extra member, and in each case it is written elsewhere.
  by_cases taken : takes (name, value) = true
  · have plain : isExtension name = false := by
      rw [← Bool.not_eq_true]
      intro own
      rw [takes_extension own] at taken
      cases taken
    rw [settled.get?_own plain]
    exact (get?_typed distinct read found taken).imp_left fun typed => by rw [typed, Option.some_or]
  · left
    rw [Bool.not_eq_true] at taken
    have filters : metadata.extensions = members.filter (fun member => isExtension member.1) ∧
        metadata.extra =
          members.filter fun member => !isExtension member.1 && !takes member := by
      rw [ofMembers_eq distinct] at read
      rcases bind_eq_ok_iff.mp read with ⟨declaredType, _, read⟩
      cases pure_eq_ok_iff.mp read
      exact ⟨rfl, rfl⟩
    cases own : isExtension name with
    | true =>
        have absent : name ∉ keys (metadata.head none ++ metadata.flags ++ metadata.extra) := by
          intro present
          rcases mem_keys_iff.mp present with ⟨other, inside⟩
          rcases List.mem_append.mp inside with typed | extra
          · have plain := (taken_of_mem typed).1
            simp [own] at plain
          · have plain := settled.plain _ extra
            simp [own] at plain
        rw [Metadata.own, get?_append, get?_eq_none_iff.mpr absent, Option.none_or, filters.1,
          distinct.get?_filter, found]
        simp [own]
    | false =>
        have extra : get? name metadata.extra = some value := by
          rw [filters.2, distinct.get?_filter, found]
          simp [own, taken]
        have absent : name ∉ keys (metadata.head none ++ metadata.flags) := fun typed =>
          settled.apart name typed (mem_keys_of_mem (mem_of_get?_eq_some extra))
        rw [settled.get?_own own, get?_eq_none_iff.mpr absent, Option.none_or, extra]

end Metadata

/-! ## Nodes -/

namespace Schema

theorem DistinctOwn.metadata {schema : Schema} (own : schema.DistinctOwn) {metadata : Metadata}
    (found : schema.metadata? = some metadata) : metadata.DistinctKeys := by
  cases schema with
  | object shape =>
      cases found
      exact own.2
  | composed shape =>
      cases found
      exact own.2
  | primitive leaf =>
      cases found
      exact PrimitiveSchema.DistinctKeys.metadata own
  | array shape =>
      cases found
      exact own
  | map shape =>
      cases found
      exact own
  | reference => cases found
  | boolean => cases found

section Node

variable {members : Members Json} (distinct : Distinct members)
  (inline : Reference.ofMembers? members = none) {schema : Schema} {metadata : Metadata}
  (own : schema.MetadataAsRead metadata)

include own

/-- Required properties are written as they were read. -/
theorem mirrors_required (typed : schema.isTyped = isRequired)
    (read : schema.required = requiredIn members) {name : String} {value : Json}
    (found : get? name members = some value) (taken : isRequired (name, value) = true) :
    Part.plain.Mirrors value (get? name (schema.written metadata)) := by
  rw [isRequired, Bool.and_eq_true, beq_iff_eq] at taken
  obtain ⟨rfl, texts⟩ : name = "required" ∧ value.strings?.isSome = true := taken
  rcases Option.isSome_iff_exists.mp texts with ⟨names, known⟩
  have required : schema.required = names := by
    rw [read, requiredIn, found, Option.bind_some, known, Option.getD_some]
  have same := Json.eq_strings_of_strings? known
  have again := requiredIn_written own typed
  rw [required, requiredIn] at again
  cases names with
  | nil =>
      -- An empty list is not written, but it holds nothing that could be missed.
      rw [same]
      exact Part.mirrors_array_nil
  | cons first rest =>
      cases written : get? "required" (schema.written metadata) with
      | none => simp [written] at again
      | some other =>
          rw [written, Option.bind_some] at again
          cases known : other.strings? with
          | none => simp [known] at again
          | some texts =>
              rw [known, Option.getD_some] at again
              rw [same, Json.eq_strings_of_strings? known, again]
              exact Part.mirrors_plain _

/-- A format is written as it was read. -/
theorem mirrors_format (typed : schema.isTyped = isFormat)
    (read : schema.format? = (get? "format" members).bind Json.string?) {name : String}
    {value : Json} (found : get? name members = some value)
    (taken : isFormat (name, value) = true) :
    Part.plain.Mirrors value (get? name (schema.written metadata)) := by
  rw [isFormat, Bool.and_eq_true, beq_iff_eq] at taken
  obtain ⟨rfl, text⟩ : name = "format" ∧ value.string?.isSome = true := taken
  rcases Option.isSome_iff_exists.mp text with ⟨format, known⟩
  have again := format_written own typed
  rw [read, found, Option.bind_some, known, Option.bind_eq_some_iff] at again
  rcases again with ⟨other, written, same⟩
  rw [written, Json.eq_string_of_string? same, Json.eq_string_of_string? known]
  exact Part.mirrors_plain _

include distinct inline

/-- What is written of a node mirrors what it was read from if its structure does. -/
theorem mirrors_of_settled (keys : metadata.DistinctKeys)
    (found : schema.metadata? = some metadata)
    (read : Metadata.ofMembers (leftOver schema.settledKeys schema.isTyped members) = .ok metadata)
    (typed : ∀ name child, get? name members = some child → schema.isTyped (name, child) = true →
      Part.plain.Mirrors child (get? name (schema.written metadata)))
    (parts : Members.keys (partsIn members) ⊆ schema.settledKeys)
    (settled : ∀ name child, get? name members = some child → name ∈ schema.settledKeys →
      (Part.schema.under members name).Mirrors child (get? name schema.structural)) :
    Part.schema.Mirrors (.object members) (some schema.toJson) := by
  rw [toJson_eq_written own keys found]
  apply Part.mirrors_object rfl
  intro name child there
  have under : Part.schema.inside (.object members) (.key name) =
      Part.schema.under members name := by
    simp [Part.inside, inline]
  rw [under, Option.bind_some, Json.step?_key_object]
  by_cases known : name ∈ schema.settledKeys
  · rw [get?_written_of_settled own known]
    exact settled name child there known
  · have plain : Part.schema.under members name = .plain := by
      have absent : name ∉ Members.keys (partsIn members) := fun present => known (parts present)
      simp [Part.under, Part.known, get?_eq_none_iff.mpr absent]
    rw [plain]
    cases taken : schema.isTyped (name, child) with
    | true => exact typed name child there taken
    | false =>
        have left : get? name (leftOver schema.settledKeys schema.isTyped members) =
            some child := by
          rw [leftOver, (distinct.moveToEnd _).get?_filter, get?_moveToEnd distinct, there]
          simp [known, taken]
        rcases Metadata.get?_own_of_ofMembers (distinct_leftOver distinct _ _) read own.settled
          left with kept | rfl
        · rw [← filter_written own, (distinct_written own keys).get?_filter,
            Option.filter_eq_some_iff] at kept
          rw [kept.1]
          exact Part.mirrors_plain child
        · exact Part.mirrors_null

end Node

/-! ## Children -/

/-- What is written of the schema that a value is read as mirrors the value. -/
def Mirrored (value : Json) : Prop :=
  ∀ schema, ofJson value = .ok schema → Part.schema.Mirrors value (some schema.toJson)

theorem mirrors_ofElements {elements : List Json} (each : ∀ element ∈ elements, Mirrored element)
    {schemas : List Schema} (read : ofElements elements = .ok schemas) :
    (Part.list .schema).Mirrors (.array elements)
      (if toElements schemas = [] then none else some (.array (toElements schemas))) := by
  apply Part.Mirrors.unless_array
  rw [toElements_eq]
  apply Part.mirrors_of_forall₂
  exact forall₂_imp_of_mem (ofElements_eq_ok_iff.mp read) each

theorem mirrors_ofEntries {entries : Members Json}
    (each : ∀ name value, (name, value) ∈ entries → Mirrored value)
    {properties : List (String × Schema)} (read : ofEntries entries = .ok properties) :
    (Part.map .schema).Mirrors (.object entries)
      (if toMembers properties = [] then none else some (.object (toMembers properties))) := by
  apply Part.Mirrors.unless_object
  rw [toMembers_eq]
  apply Part.mirrors_of_related
  exact (ofEntries_eq_ok_iff.mp read).mono fun name value schema present =>
    each name value present schema

/-- Under a settled key stands what the variant reads, if nothing stands under the others. -/
theorem mem_of_settled {members : Members Json} {foreign own : List String}
    (absent : ∀ key ∈ foreign, key ∉ keys members) {name : String} {child : Json}
    (there : get? name members = some child) (settled : name ∈ foreign ++ own) : name ∈ own :=
  (List.mem_append.mp settled).resolve_left fun other =>
    absent name other (mem_keys_of_mem (mem_of_get?_eq_some there))

section Children

variable {members : Members Json}
  (each : ∀ name value, (name, value) ∈ members →
    Mirrored value ∧ ∀ part ∈ value.parts, Mirrored part) {value : Json}

include each

theorem mirrors_listAt {keyword : Keyword} {schemas : List Schema}
    (read : listAt keyword members = .ok schemas)
    (found : get? keyword.text members = some value) :
    (Part.list .schema).Mirrors value
      (if toElements schemas = [] then none else some (.array (toElements schemas))) := by
  have inside := (each _ _ (mem_of_get?_eq_some found)).2
  rw [listAt_eq, found] at read
  cases value with
  | array elements => exact mirrors_ofElements inside read
  | null => exact Part.mirrors_null
  | _ => cases read

theorem mirrors_propertiesIn {properties : List (String × Schema)}
    (read : propertiesIn members = .ok properties)
    (found : get? "properties" members = some value) :
    (Part.map .schema).Mirrors value
      (if toMembers properties = [] then none else some (.object (toMembers properties))) := by
  have inside := (each _ _ (mem_of_get?_eq_some found)).2
  rw [propertiesIn_eq, Keyword.text, found] at read
  cases value with
  | object entries =>
      apply mirrors_ofEntries _ read
      exact fun name value present => inside value (List.mem_map_of_mem present)
  | null => exact Part.mirrors_null
  | _ => cases read

theorem mirrors_itemsIn {items : Option Schema} (read : itemsIn members = .ok items)
    (found : get? "items" members = some value) :
    Part.schema.Mirrors value (items.map toJson) := by
  rw [itemsIn_eq, found] at read
  rcases bind_eq_ok_iff.mp read with ⟨schema, own, same⟩
  cases pure_eq_ok_iff.mp same
  exact (each _ _ (mem_of_get?_eq_some found)).1 schema own

theorem mirrors_additionalIn {additional : AdditionalProperties}
    (read : additionalIn members = .ok additional)
    (found : get? "additionalProperties" members = some value) :
    Part.schema.Mirrors value (get? "additionalProperties" (additionalMember additional)) := by
  rw [additionalIn_eq, Keyword.text, found] at read
  cases value with
  | bool allowed =>
      cases read
      exact Part.mirrors_of_isScalar rfl rfl
  | object inner =>
      rcases bind_eq_ok_iff.mp read with ⟨schema, own, same⟩
      cases pure_eq_ok_iff.mp same
      exact (each _ _ (mem_of_get?_eq_some found)).1 schema own
  | null => exact Part.mirrors_null
  | _ => cases read

/-! ## Variants -/

variable (distinct : Json.DistinctMap members) (inline : Reference.ofMembers? members = none)

include distinct inline

theorem mirrors_of_combinationOf (combined : combines members = true) {schema : Schema}
    (read : combinationOf members = .ok schema)
    (metadata : ∀ metadata, schema.metadata? = some metadata →
      schema.MetadataAsRead metadata ∧ metadata.DistinctKeys) :
    Part.schema.Mirrors (.object members) (some schema.toJson) := by
  rcases bind_eq_ok_iff.mp read with ⟨allOf, parts, read⟩
  rcases bind_eq_ok_iff.mp read with ⟨anyOf, anyAlternatives, read⟩
  rcases bind_eq_ok_iff.mp read with ⟨oneOf, oneAlternatives, read⟩
  rcases bind_eq_ok_iff.mp read with ⟨properties, named, read⟩
  rcases bind_eq_ok_iff.mp read with ⟨discriminator, told, read⟩
  rcases bind_eq_ok_iff.mp read with ⟨data, own, read⟩
  cases pure_eq_ok_iff.mp read
  rcases metadata data rfl with ⟨asRead, keys⟩
  have known : partsIn members =
      [("allOf", .list .schema), ("anyOf", .list .schema), ("oneOf", .list .schema),
        ("properties", .map .schema), ("discriminator", .discriminator)] := by
    rw [partsIn, if_pos combined]
  apply mirrors_of_settled distinct.1 inline asRead keys rfl own
  · exact fun name child there taken => mirrors_required asRead rfl rfl there taken
  · rw [known]
    exact List.Subset.refl _
  · intro name child there settled
    simp only [settledKeys, combinationKeys, List.mem_cons, List.not_mem_nil, or_false] at settled
    rcases settled with rfl | rfl | rfl | rfl | rfl
    · have mirrors := mirrors_listAt each parts there
      simpa [Part.under, Part.known, known, get?_cons, structural, get?_append,
        requiredMember] using mirrors
    · have mirrors := mirrors_listAt each anyAlternatives there
      simpa [Part.under, Part.known, known, get?_cons, structural, get?_append,
        requiredMember] using mirrors
    · have mirrors := mirrors_listAt each oneAlternatives there
      simpa [Part.under, Part.known, known, get?_cons, structural, get?_append,
        requiredMember] using mirrors
    · have mirrors := mirrors_propertiesIn each named there
      simpa [Part.under, Part.known, known, get?_cons, structural, get?_append,
        requiredMember] using mirrors
    · have mirrors := Discriminator.mirrors distinct there told
      simpa [Part.under, Part.known, known, get?_cons, structural, get?_append,
        requiredMember] using mirrors

theorem mirrors_of_arrayOf (alone : combines members = false)
    (array : (declares (declaredIn members) "array" || has "items" members) = true)
    {schema : Schema} (read : arrayOf members = .ok schema)
    (metadata : ∀ metadata, schema.metadata? = some metadata →
      schema.MetadataAsRead metadata ∧ metadata.DistinctKeys) :
    Part.schema.Mirrors (.object members) (some schema.toJson) := by
  rcases bind_eq_ok_iff.mp read with ⟨items, inside, read⟩
  rcases bind_eq_ok_iff.mp read with ⟨data, own, read⟩
  cases pure_eq_ok_iff.mp read
  rcases metadata data rfl with ⟨asRead, keys⟩
  have known : partsIn members = [("items", .schema)] := by
    rw [partsIn, if_neg (by simp [alone]), if_pos array]
  apply mirrors_of_settled distinct.1 inline asRead keys rfl own
  · rintro name child there ⟨⟩
  · simp [known, settledKeys, arrayKeys]
  · intro name child there settled
    have own : name ∈ ["items"] := mem_of_settled (not_mem_of_combines alone) there settled
    obtain rfl := List.mem_singleton.mp own
    have mirrors := mirrors_itemsIn each inside there
    cases items <;>
      simpa [Part.under, Part.known, known, get?_cons, structural, itemsMember] using mirrors

theorem mirrors_of_objectOf
    (foreign : ∀ key ∈ ["allOf", "anyOf", "oneOf", "items"], key ∉ keys members)
    (known : partsIn members = [("properties", .map .schema), ("additionalProperties", .schema),
      ("discriminator", .discriminator)])
    {schema : Schema} (read : objectOf members = .ok schema)
    (metadata : ∀ metadata, schema.metadata? = some metadata →
      schema.MetadataAsRead metadata ∧ metadata.DistinctKeys) :
    Part.schema.Mirrors (.object members) (some schema.toJson) := by
  have places : ∀ {name : String} {child : Json}, get? name members = some child →
      name ∈ objectKeys →
        name = "properties" ∨ name = "additionalProperties" ∨ name = "discriminator" := by
    intro name child there settled
    have own : name ∈ ["properties", "additionalProperties", "discriminator"] :=
      mem_of_settled foreign there settled
    simpa using own
  rcases bind_eq_ok_iff.mp read with ⟨properties, named, read⟩
  rcases bind_eq_ok_iff.mp read with ⟨additional, undeclared, read⟩
  split at read
  · next value alone =>
      rcases bind_eq_ok_iff.mp read with ⟨data, own, read⟩
      cases pure_eq_ok_iff.mp read
      rcases metadata data rfl with ⟨asRead, keys⟩
      simp only [Bool.and_eq_true, List.isEmpty_iff, Bool.not_eq_true', has_eq_isSome,
        Option.isSome_eq_false_iff, Option.isNone_iff_eq_none] at alone
      rcases alone with ⟨rfl, untold⟩
      apply mirrors_of_settled distinct.1 inline asRead keys rfl own
      · rintro name child there ⟨⟩
      · simp [known, settledKeys, objectKeys]
      · intro name child there settled
        rcases places there settled with rfl | rfl | rfl
        · have mirrors := mirrors_propertiesIn each named there
          simpa [Part.under, Part.known, known, get?_cons, structural] using mirrors
        · have mirrors := mirrors_additionalIn each undeclared there
          simpa [Part.under, Part.known, known, get?_cons, structural, additionalMember] using
            mirrors
        · cases untold.symm.trans there
  · rcases bind_eq_ok_iff.mp read with ⟨discriminator, told, read⟩
    rcases bind_eq_ok_iff.mp read with ⟨data, own, read⟩
    cases pure_eq_ok_iff.mp read
    rcases metadata data rfl with ⟨asRead, keys⟩
    have apart : ∀ (additional : AdditionalProperties) (name : String),
        name ≠ "additionalProperties" → get? name (additionalMember additional) = none := by
      intro additional name differs
      cases additional <;> simp [additionalMember, get?_cons, Ne.symm differs]
    apply mirrors_of_settled distinct.1 inline asRead keys rfl own
    · exact fun name child there taken => mirrors_required asRead rfl rfl there taken
    · simp [known, settledKeys, objectKeys]
    · intro name child there settled
      rcases places there settled with rfl | rfl | rfl
      · have mirrors := mirrors_propertiesIn each named there
        simpa [Part.under, Part.known, known, get?_cons, structural, get?_append, requiredMember,
          apart] using mirrors
      · have mirrors := mirrors_additionalIn each undeclared there
        simpa [Part.under, Part.known, known, get?_cons, structural, get?_append,
          requiredMember] using mirrors
      · have mirrors := Discriminator.mirrors distinct there told
        simpa [Part.under, Part.known, known, get?_cons, structural, get?_append, requiredMember,
          apart] using mirrors

omit each in
theorem mirrors_of_leafOf
    (foreign : ∀ key ∈ ["allOf", "anyOf", "oneOf", "items", "properties", "additionalProperties"],
      key ∉ keys members)
    (known : partsIn members = []) {schema : Schema} (read : leafOf members = .ok schema)
    (metadata : ∀ metadata, schema.metadata? = some metadata →
      schema.MetadataAsRead metadata ∧ metadata.DistinctKeys) :
    Part.schema.Mirrors (.object members) (some schema.toJson) := by
  rcases bind_eq_ok_iff.mp read with ⟨enumValues, values, read⟩
  rcases bind_eq_ok_iff.mp read with ⟨data, own, read⟩
  cases pure_eq_ok_iff.mp read
  rcases metadata data rfl with ⟨asRead, keys⟩
  apply mirrors_of_settled distinct.1 inline asRead keys rfl own
  · exact fun name child there taken => mirrors_format asRead rfl rfl there taken
  · simp [known]
  · intro name child there settled
    have plain : Part.schema.under members name = .plain := by
      simp [Part.under, Part.known, known]
    have own : name ∈ ["enum"] := mem_of_settled foreign there settled
    obtain rfl := List.mem_singleton.mp own
    rw [PrimitiveSchema.enumValuesOf, Keyword.text, there] at values
    cases child with
    | array elements =>
        cases values
        rw [plain]
        cases enumValues with
        | nil => exact Part.mirrors_array_nil
        | cons first rest => exact Part.mirrors_plain _
    | _ => cases values

omit inline in
/-- What is written of the schema that an object is read as mirrors the object. -/
theorem mirrored_object : Mirrored (.object members) := by
  intro schema read
  cases inline : Reference.ofMembers? members with
  | some target =>
      rw [ofJson, inline] at read
      cases read
      rw [toJson]
      exact Reference.mirrors rfl distinct.1 inline
  | none =>
      have node := nodeFrom_of_ofJson distinct.1 read
      have metadata : ∀ metadata, schema.metadata? = some metadata →
          schema.MetadataAsRead metadata ∧ metadata.DistinctKeys := fun metadata found =>
        ⟨(nodeAsRead_of_object distinct read).metadata metadata found,
          node.distinct_metadata distinct found⟩
      rw [ofJson_object_eq distinct.1 inline] at read
      split at read
      · next combined => exact mirrors_of_combinationOf each distinct inline combined read metadata
      · next alone =>
          rw [Bool.not_eq_true] at alone
          rcases bind_eq_ok_iff.mp read with ⟨declared, own, read⟩
          obtain rfl : declaredIn members = declared := by
            rw [declaredIn, own]
            rfl
          have parts := not_mem_of_combines alone
          split at read
          · next array => exact mirrors_of_arrayOf each distinct inline alone array read metadata
          · next notArray =>
              have noItems := notArray
              simp only [Bool.or_eq_true, not_or, has_iff_mem_keys] at noItems
              split at read
              · next object =>
                  apply mirrors_of_objectOf each distinct inline _ _ read metadata
                  · simpa [or_imp, forall_and, noItems.2] using parts
                  · rw [partsIn, if_neg (by simp [alone]), if_neg notArray, if_pos object]
              · next notObject =>
                  have noProperties := notObject
                  simp only [Bool.or_eq_true, not_or, has_iff_mem_keys] at noProperties
                  apply mirrors_of_leafOf distinct inline _ _ read metadata
                  · simpa [or_imp, forall_and, noItems.2, noProperties] using parts
                  · rw [partsIn, if_neg (by simp [alone]), if_neg notArray, if_neg notObject]

end Children

/-- What is written of a schema mirrors the value that it was read from. -/
theorem mirrors_of_ofJson {value : Json} {schema : Schema} (distinct : value.DistinctKeys)
    (read : ofJson value = .ok schema) : Part.schema.Mirrors value (some schema.toJson) := by
  -- The children of a node stand in lists and maps, one level deeper than its members.
  have both : Mirrored value ∧ ∀ part ∈ value.parts, Mirrored part := by
    clear read
    induction value using Json.induction with
    | step value ih =>
        have below := fun part inside => ih part inside (distinct.part inside)
        refine ⟨?_, fun part inside => (below part inside).1⟩
        cases value with
        | bool allowed =>
            rintro schema ⟨⟩
            exact Part.mirrors_of_isScalar rfl rfl
        | object members =>
            apply mirrored_object _ ((Json.distinctMap_iff_distinctKeys members).mpr distinct)
            exact fun name value present => below value (List.mem_map_of_mem present)
        | _ => rintro schema ⟨⟩
  exact both.1 schema read

end Schema

end SchemaLift
