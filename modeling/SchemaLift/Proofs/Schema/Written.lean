import SchemaLift.Proofs.Schema.AsRead

/-!
# What is written of a node

The members that are written of a node are those of its structure (`Schema.structural`) and those of
its metadata, each once (`Schema.distinct_written`). Where the node is as it is read, looking among
them finds its structure again (`Schema.get?_written_of_settled`), and what is left over are the
members of its metadata (`Schema.filter_written`).
-/

namespace SchemaLift

open Members

/-! ## Members that are written only sometimes -/

theorem keys_unlessEmpty_sublist (key : String) (values : List Json) :
    (keys (unlessEmpty key values)).Sublist [key] := by
  cases values <;> simp [unlessEmpty]

@[simp]
theorem get?_unlessEmpty (name key : String) (values : List Json) :
    get? name (unlessEmpty key values) =
      if key = name then if values = [] then none else some (.array values) else none := by
  cases values <;> simp [unlessEmpty, get?_cons]

namespace Schema

theorem keys_propertiesMember_sublist (properties : Members Json) :
    (keys (propertiesMember properties)).Sublist ["properties"] := by
  cases properties <;> simp [propertiesMember]

@[simp]
theorem get?_propertiesMember (name : String) (properties : Members Json) :
    get? name (propertiesMember properties) =
      if "properties" = name then if properties = [] then none else some (.object properties)
      else none := by
  cases properties <;> simp [propertiesMember, get?_cons]

theorem keys_additionalMember_sublist (additional : AdditionalProperties) :
    (keys (additionalMember additional)).Sublist ["additionalProperties"] := by
  cases additional <;> simp [additionalMember]

theorem of_mem_requiredMember {required : List String} {member : String × Json}
    (present : member ∈ requiredMember required) :
    isRequired member = true ∧ member.1 = "required" ∧ required ≠ [] := by
  cases required with
  | nil => cases present
  | cons first rest =>
      cases List.mem_singleton.mp present
      have texts := DeclaredType.strings?_strings (first :: rest)
      rw [Json.strings] at texts
      refine ⟨?_, rfl, by simp⟩
      simp only [isRequired, texts]
      rfl

/-! ## The structure of a node -/

/-- The members that are written of what is proper to the variant of a node. -/
def structural : Schema → Members Json
  | .object shape =>
    requiredMember shape.required ++ propertiesMember (toMembers shape.properties) ++
      additionalMember shape.additional ++
      optional "discriminator" Discriminator.toJson shape.discriminator
  | .array shape => itemsMember shape.items
  | .map shape => [("additionalProperties", shape.value.toJson)]
  | .composed shape =>
    requiredMember shape.required ++ propertiesMember (toMembers shape.properties) ++
      unlessEmpty "allOf" (toElements shape.allOf) ++
      unlessEmpty "anyOf" (toElements shape.anyOf) ++
      unlessEmpty "oneOf" (toElements shape.oneOf) ++
      optional "discriminator" Discriminator.toJson shape.discriminator
  | .primitive leaf => unlessEmpty "enum" leaf.enumValues
  | .reference _ | .boolean _ => []

/-- The members that are written of a node. -/
def written (schema : Schema) (metadata : Metadata) : Members Json :=
  metadata.head schema.format? ++ schema.structural ++ metadata.flags ++ metadata.extra ++
    metadata.extensions

theorem toJson_eq_around {schema : Schema} {metadata : Metadata}
    (found : schema.metadata? = some metadata) :
    schema.toJson = metadata.around schema.format? schema.structural := by
  cases schema with
  | object shape =>
      cases found
      rcases shape with ⟨properties, required, additional, discriminator, metadata⟩
      rw [toJson]
      rfl
  | array shape =>
      cases found
      rcases shape with ⟨items, metadata⟩
      rw [toJson]
      rfl
  | map shape =>
      cases found
      rcases shape with ⟨value, metadata⟩
      rw [toJson]
      rfl
  | composed shape =>
      cases found
      rcases shape with ⟨allOf, anyOf, oneOf, properties, required, discriminator, metadata⟩
      rw [toJson]
      rfl
  | primitive leaf =>
      cases found
      rw [toJson]
      rfl
  | reference => cases found
  | boolean => cases found

/-- The keys of structures, in the order in which they are written. -/
def structuralKeys : List String :=
  ["required", "properties", "additionalProperties", "items", "allOf", "anyOf", "oneOf", "enum",
    "discriminator"]

theorem keys_structural_sublist (schema : Schema) :
    (keys schema.structural).Sublist structuralKeys := by
  cases schema with
  | object shape =>
      have additional := keys_additionalMember_sublist shape.additional
      have all := (((keys_unlessEmpty_sublist "required" (shape.required.map .string)).append
        (keys_propertiesMember_sublist (toMembers shape.properties))).append additional).append
        (keys_optional_sublist "discriminator" Discriminator.toJson shape.discriminator)
      simp only [structural, keys_append]
      exact all.trans (by decide)
  | array shape =>
      rcases shape with ⟨items, metadata⟩
      cases items <;> simp [structural, itemsMember, structuralKeys]
  | map shape => simp [structural, structuralKeys]
  | composed shape =>
      have all := (((((keys_unlessEmpty_sublist "required" (shape.required.map .string)).append
        (keys_propertiesMember_sublist (toMembers shape.properties))).append
        (keys_unlessEmpty_sublist "allOf" (toElements shape.allOf))).append
        (keys_unlessEmpty_sublist "anyOf" (toElements shape.anyOf))).append
        (keys_unlessEmpty_sublist "oneOf" (toElements shape.oneOf))).append
        (keys_optional_sublist "discriminator" Discriminator.toJson shape.discriminator)
      simp only [structural, keys_append]
      exact all.trans (by decide)
  | primitive leaf =>
      exact (keys_unlessEmpty_sublist "enum" leaf.enumValues).trans (by decide)
  | reference => exact List.nil_sublist _
  | boolean => exact List.nil_sublist _

/-- What is written of the structure of a node is not left over by it. -/
theorem taken_of_mem_structural {schema : Schema} {member : String × Json}
    (present : member ∈ schema.structural) :
    member.1 ∈ schema.settledKeys ∨
      schema.isTyped member = true ∧ member.1 = "required" ∧ schema.required ≠ [] := by
  have only : ∀ {members : Members Json} {key : String}, (keys members).Sublist [key] →
      member ∈ members → member.1 = key := by
    intro members key keys inside
    exact List.mem_singleton.mp (keys.subset (mem_keys_of_mem inside))
  cases schema with
  | object shape =>
      simp only [structural, List.mem_append] at present
      rcases present with ((required | properties) | additional) | discriminator
      · exact Or.inr (of_mem_requiredMember required)
      · rw [only (keys_propertiesMember_sublist _) properties]
        exact Or.inl (by simp [settledKeys, objectKeys])
      · rw [only (keys_additionalMember_sublist _) additional]
        exact Or.inl (by simp [settledKeys, objectKeys])
      · rw [only (keys_optional_sublist _ _ _) discriminator]
        exact Or.inl (by simp [settledKeys, objectKeys])
  | array shape =>
      rcases shape with ⟨items, metadata⟩
      cases items with
      | none => cases present
      | some item =>
          cases List.mem_singleton.mp present
          exact Or.inl (by simp [settledKeys, arrayKeys])
  | map shape =>
      cases List.mem_singleton.mp present
      exact Or.inl (by simp [settledKeys, objectKeys])
  | composed shape =>
      simp only [structural, List.mem_append] at present
      rcases present with ((((required | properties) | part) | alternative) | alternative) |
        discriminator
      · exact Or.inr (of_mem_requiredMember required)
      · rw [only (keys_propertiesMember_sublist _) properties]
        exact Or.inl (by simp [settledKeys, combinationKeys])
      · rw [only (keys_unlessEmpty_sublist _ _) part]
        exact Or.inl (by simp [settledKeys, combinationKeys])
      · rw [only (keys_unlessEmpty_sublist _ _) alternative]
        exact Or.inl (by simp [settledKeys, combinationKeys])
      · rw [only (keys_unlessEmpty_sublist _ _) alternative]
        exact Or.inl (by simp [settledKeys, combinationKeys])
      · rw [only (keys_optional_sublist _ _ _) discriminator]
        exact Or.inl (by simp [settledKeys, combinationKeys])
  | primitive leaf =>
      rw [only (keys_unlessEmpty_sublist _ _) present]
      exact Or.inl (by simp [settledKeys, leafKeys])
  | reference => cases present
  | boolean => cases present

/-! ## Metadata among the members that are written -/

/-- The keys of typed metadata. -/
def metadataKeys : List String :=
  ["type", "title", "description", "nullable", "readOnly", "writeOnly", "deprecated", "default",
    "example"]

/-- Whether a node leaves a member to its metadata. -/
def leaves (schema : Schema) (member : String × Json) : Bool :=
  !schema.settledKeys.contains member.1 && !schema.isTyped member

/-- A key that no node takes as its own is left over. -/
theorem leaves_of_not_mem (schema : Schema) {member : String × Json}
    (other : member.1 ∉ "format" :: structuralKeys) : schema.leaves member = true := by
  simp only [structuralKeys, List.mem_cons, List.not_mem_nil, or_false, not_or] at other
  cases schema <;>
    simp [leaves, settledKeys, isTyped, isRequired, isFormat, objectKeys, arrayKeys,
      combinationKeys, leafKeys, other]

theorem filter_optional {α : Type} (schema : Schema) {key : String} (known : key ∈ metadataKeys)
    (write : α → Json) (value : Option α) :
    (optional key write value).filter schema.leaves = optional key write value := by
  have other : ∀ key ∈ metadataKeys, key ∉ "format" :: structuralKeys := by decide
  cases value with
  | none => rfl
  | some own =>
      apply List.filter_eq_self.mpr
      intro member present
      cases List.mem_singleton.mp present
      exact leaves_of_not_mem schema (other key known)

theorem filter_format (schema : Schema) :
    (optional "format" Json.string schema.format?).filter schema.leaves = [] := by
  cases schema with
  | primitive leaf =>
      rcases leaf with ⟨format, enumValues, metadata⟩
      cases format <;>
        simp [format?, optional, leaves, settledKeys, leafKeys, isTyped, isFormat, Json.string?]
  | _ => rfl

theorem filter_head (schema : Schema) (metadata : Metadata) :
    (metadata.head schema.format?).filter schema.leaves = metadata.head none := by
  have type := filter_optional schema (by decide : "type" ∈ metadataKeys) DeclaredType.toJson
    metadata.declaredType
  have title := filter_optional schema (by decide : "title" ∈ metadataKeys) Json.string
    metadata.title
  have description := filter_optional schema (by decide : "description" ∈ metadataKeys) Json.string
    metadata.description
  simp only [Metadata.head, List.filter_append, type, filter_format, title, description]
  rfl

theorem filter_flags (schema : Schema) (metadata : Metadata) :
    metadata.flags.filter schema.leaves = metadata.flags := by
  have nullable := filter_optional schema (by decide : "nullable" ∈ metadataKeys) Json.bool
  have readOnly := filter_optional schema (by decide : "readOnly" ∈ metadataKeys) Json.bool
  have writeOnly := filter_optional schema (by decide : "writeOnly" ∈ metadataKeys) Json.bool
  have deprecated := filter_optional schema (by decide : "deprecated" ∈ metadataKeys) Json.bool
  have default := filter_optional schema (by decide : "default" ∈ metadataKeys) (id : Json → Json)
  have sample := filter_optional schema (by decide : "example" ∈ metadataKeys) (id : Json → Json)
  simp only [Metadata.flags, List.filter_append, nullable, readOnly, writeOnly, deprecated, default,
    sample]

theorem filter_structural (schema : Schema) : schema.structural.filter schema.leaves = [] := by
  apply List.filter_eq_nil_iff.mpr
  intro member present
  rcases taken_of_mem_structural present with settled | ⟨typed, _⟩
  · simp [leaves, settled]
  · simp [leaves, typed]

/-- The keys of typed members, in the order in which they are written. -/
def typedKeys : List String :=
  ["type", "format", "title", "description"] ++ structuralKeys ++
    ["nullable", "readOnly", "writeOnly", "deprecated", "default", "example"]

theorem keys_typed_sublist (schema : Schema) (metadata : Metadata) :
    (keys (metadata.head schema.format? ++ schema.structural ++ metadata.flags)).Sublist
      typedKeys := by
  have head := (((keys_optional_sublist "type" DeclaredType.toJson metadata.declaredType).append
    (keys_optional_sublist "format" Json.string schema.format?)).append
    (keys_optional_sublist "title" Json.string metadata.title)).append
    (keys_optional_sublist "description" Json.string metadata.description)
  have flags := (((((keys_optional_sublist "nullable" Json.bool metadata.nullable).append
    (keys_optional_sublist "readOnly" Json.bool metadata.readOnly)).append
    (keys_optional_sublist "writeOnly" Json.bool metadata.writeOnly)).append
    (keys_optional_sublist "deprecated" Json.bool metadata.deprecated)).append
    (keys_optional_sublist "default" id metadata.defaultValue)).append
    (keys_optional_sublist "example" id metadata.exampleValue)
  simp only [Metadata.head, Metadata.flags, keys_append] at head flags ⊢
  exact (head.append (keys_structural_sublist schema)).append flags

section Written

variable {schema : Schema} {metadata : Metadata} (own : schema.MetadataAsRead metadata)
  (distinct : metadata.DistinctKeys)

include own

theorem not_mem_extra_of_mem_structural {key : String} (present : key ∈ keys schema.structural) :
    key ∉ keys metadata.extra := by
  intro there
  rcases mem_keys_iff.mp present with ⟨value, inside⟩
  rcases mem_keys_iff.mp there with ⟨other, extra⟩
  rcases taken_of_mem_structural inside with settled | ⟨_, same, filled⟩
  · exact own.keys _ extra settled
  · obtain rfl : key = "required" := same
    exact own.required filled there

theorem not_mem_extra_of_mem_head {key : String}
    (present : key ∈ keys (metadata.head schema.format?)) : key ∉ keys metadata.extra := by
  have front : ∀ key ∈ keys (metadata.head none), key ∉ keys metadata.extra := by
    intro key inside
    apply own.settled.apart
    rw [keys_append]
    exact List.mem_append_left _ inside
  simp only [Metadata.head, keys_append, List.mem_append, mem_keys_optional] at present front
  rcases present with ((type | ⟨rfl, format⟩) | title) | description
  · exact front key (by simp [type])
  · exact own.format format
  · exact front key (by simp [title])
  · exact front key (by simp [description])

/-- No typed member of a node has a key of those that are left over. -/
theorem not_mem_extra {key : String}
    (present : key ∈ keys (metadata.head schema.format? ++ schema.structural ++ metadata.flags)) :
    key ∉ keys metadata.extra := by
  rw [keys_append, keys_append, List.mem_append, List.mem_append] at present
  rcases present with (head | structural) | flags
  · exact not_mem_extra_of_mem_head own head
  · exact not_mem_extra_of_mem_structural own structural
  · apply own.settled.apart
    rw [keys_append]
    exact List.mem_append_right _ flags

include distinct

/-- No key is written twice. -/
theorem distinct_written : Distinct (schema.written metadata) := by
  have typed := keys_typed_sublist schema metadata
  have plain : ∀ key ∈ typedKeys, Metadata.isExtension key = false := by decide
  refine distinct_append_iff.mpr ⟨distinct_append_iff.mpr ⟨?_, distinct.extra.1, ?_⟩,
    distinct.extensions.1, ?_⟩
  · exact (by decide : typedKeys.Nodup).sublist typed
  · exact fun key present => not_mem_extra own present
  · intro key present
    rw [keys_append, List.mem_append] at present
    apply own.settled.not_mem_extensions
    rcases present with front | extra
    · exact plain key (typed.subset front)
    · rcases mem_keys_iff.mp extra with ⟨value, inside⟩
      exact own.settled.plain _ inside

/-- What is written of a node. -/
theorem toJson_eq_written (found : schema.metadata? = some metadata) :
    schema.toJson = .object (schema.written metadata) := by
  have whole := distinct_written own distinct
  have front : Distinct
      (metadata.head schema.format? ++ schema.structural ++ metadata.flags ++ metadata.extra) :=
    (distinct_append_iff.mp whole).1
  rw [toJson_eq_around found, Metadata.around, extend_eq_append front, extend_eq_append whole,
    written]

/-! ## The members that are written, read again -/

omit own distinct in
theorem mem_structuralKeys {key : String} (settled : key ∈ schema.settledKeys) :
    key ∈ structuralKeys := by
  have object : objectKeys ⊆ structuralKeys := by decide
  have array : arrayKeys ⊆ structuralKeys := by decide
  have combination : combinationKeys ⊆ structuralKeys := by decide
  have leaf : leafKeys ⊆ structuralKeys := by decide
  cases schema with
  | object => exact object settled
  | array => exact array settled
  | map => exact object settled
  | composed => exact combination settled
  | primitive => exact leaf settled
  | reference => cases settled
  | boolean => cases settled

omit distinct in
theorem get?_written {key : String} (plain : Metadata.isExtension key = false) :
    get? key (schema.written metadata) =
      (get? key (metadata.head schema.format? ++ schema.structural ++ metadata.flags)).or
        (get? key metadata.extra) := by
  have last := get?_eq_none_iff.mpr (own.settled.not_mem_extensions plain)
  rw [written, get?_append, get?_append, last, Option.or_none]

omit distinct in
/-- Under a key that is not left over stands what is written of the structure. -/
theorem get?_written_of_settled {key : String} (settled : key ∈ schema.settledKeys) :
    get? key (schema.written metadata) = get? key schema.structural := by
  have structural := mem_structuralKeys settled
  have known : ∀ key ∈ structuralKeys, key ∉ "format" :: metadataKeys ∧
      Metadata.isExtension key = false := by decide
  obtain ⟨other, plain⟩ := known key structural
  simp only [metadataKeys, List.mem_cons, List.not_mem_nil, or_false, not_or] at other
  have head : get? key (metadata.head schema.format?) = none := by
    simp [Metadata.head, get?_append, Ne.symm, other, eq_comm]
  have flags : get? key metadata.flags = none := by
    simp [Metadata.flags, get?_append, other, eq_comm]
  have extra : get? key metadata.extra = none := by
    apply get?_eq_none_iff.mpr
    intro present
    rcases mem_keys_iff.mp present with ⟨value, inside⟩
    exact own.keys _ inside settled
  rw [get?_written own plain, get?_append, get?_append, head, flags, extra, Option.none_or,
    Option.or_none, Option.or_none]

omit distinct in
/-- What is left over of the members that are written are those of the metadata. -/
theorem filter_written : (schema.written metadata).filter schema.leaves = metadata.own := by
  have extra : metadata.extra.filter schema.leaves = metadata.extra := by
    apply List.filter_eq_self.mpr
    intro member present
    simp [leaves, own.keys member present, own.untyped member present]
  have extensions : metadata.extensions.filter schema.leaves = metadata.extensions := by
    apply List.filter_eq_self.mpr
    intro member present
    have known := own.settled.extensions member present
    have plain : ∀ key ∈ "format" :: structuralKeys, Metadata.isExtension key = false := by decide
    apply leaves_of_not_mem
    intro inside
    simp [plain member.1 inside] at known
  simp only [written, List.filter_append, filter_head, filter_structural, filter_flags, extra,
    extensions, List.append_nil, Metadata.own]

/-- Metadata are read from what is written of a node. -/
theorem metadata_of_written :
    Metadata.ofMembers (leftOver schema.settledKeys schema.isTyped (schema.written metadata)) =
      .ok metadata := by
  have whole := distinct_written own distinct
  have left : leftOver schema.settledKeys schema.isTyped (schema.written metadata) =
      moveToEnd "$ref" metadata.own := by
    rw [← filter_written own, ← filter_moveToEnd whole]
    rfl
  rw [left]
  exact own.settled.ofMembers_own (filter_written own ▸ whole.filter _)

omit distinct in
theorem declaredType_of_written :
    DeclaredType.ofMembers (schema.written metadata) = .ok metadata.declaredType := by
  apply DeclaredType.ofMembers_eq_ok
  have none : (get? "type" metadata.extra).bind some = none :=
    own.settled.get?_extra (by simp [Metadata.takes])
  rw [Option.bind_fun_some] at none
  have structural : get? "type" schema.structural = .none := by
    apply get?_eq_none_iff.mpr
    intro present
    exact absurd ((keys_structural_sublist schema).subset present) (by decide)
  rw [get?_written own rfl]
  simp [Metadata.head, Metadata.flags, get?_append, structural, none]

omit distinct in
theorem inline_written : Reference.ofMembers? (schema.written metadata) = none := by
  have typed : get? "$ref" (metadata.head schema.format? ++ schema.structural ++ metadata.flags) =
      none := by
    apply get?_eq_none_iff.mpr
    intro present
    exact absurd ((keys_typed_sublist schema metadata).subset present) (by decide)
  rw [Reference.ofMembers?, get?_written own rfl, typed, Option.none_or]
  cases found : get? "$ref" metadata.extra with
  | none => rfl
  | some value =>
      cases value with
      | string pointer => exact absurd (mem_of_get?_eq_some found) (own.inline pointer)
      | _ => rfl

omit distinct in
/-- The required properties are read from what is written of them, if they are read at all. -/
theorem requiredIn_written (typed : schema.isTyped = isRequired) :
    requiredIn (schema.written metadata) = schema.required := by
  have head : get? "required" (metadata.head schema.format?) = none := by
    simp [Metadata.head, get?_append]
  have flags : get? "required" metadata.flags = none := by
    simp [Metadata.flags, get?_append]
  have structural : get? "required" schema.structural =
      if schema.required.map Json.string = [] then none
      else some (Json.strings schema.required) := by
    cases schema with
    | object shape =>
        rcases shape with ⟨properties, required, additional, discriminator, metadata⟩
        cases additional <;>
          simp [structural, get?_append, requiredMember, additionalMember, get?_cons,
            Schema.required, Json.strings]
    | composed shape =>
        simp [structural, get?_append, requiredMember, Schema.required, Json.strings]
    | reference => rfl
    | boolean => rfl
    | array shape =>
        rcases shape with ⟨items, metadata⟩
        cases items <;> simp [structural, itemsMember, Schema.required, get?_cons]
    | map shape => simp [structural, Schema.required, get?_cons]
    | primitive leaf => simp [structural, Schema.required]
  have extra : (get? "required" metadata.extra).bind Json.strings? = none := by
    cases found : get? "required" metadata.extra with
    | none => rfl
    | some value =>
        have untyped := own.untyped _ (mem_of_get?_eq_some found)
        rw [typed] at untyped
        simpa [isRequired] using untyped
  rw [requiredIn, get?_written own rfl, get?_append, get?_append, head, flags, structural,
    Option.none_or, Option.or_none]
  cases filled : schema.required with
  | nil => simp [extra]
  | cons first rest => simp [DeclaredType.strings?_strings]

omit distinct in
/-- The format is read from what is written of it, if it is read at all. -/
theorem format_written (typed : schema.isTyped = isFormat) :
    (get? "format" (schema.written metadata)).bind Json.string? = schema.format? := by
  have structural : get? "format" schema.structural = none := by
    apply get?_eq_none_iff.mpr
    intro present
    exact absurd ((keys_structural_sublist schema).subset present) (by decide)
  have extra : (get? "format" metadata.extra).bind Json.string? = none := by
    cases found : get? "format" metadata.extra with
    | none => rfl
    | some value =>
        have untyped := own.untyped _ (mem_of_get?_eq_some found)
        rw [typed] at untyped
        simpa [isFormat] using untyped
  rw [get?_written own rfl]
  simp only [Metadata.head, Metadata.flags, get?_append, get?_optional, structural]
  simp
  exact bind_or_map (fun _ => rfl) extra

end Written

/-! ## Parts that are written, read again -/

section Parts

variable {members : Members Json}

theorem listAt_eq_ofElements (keyword : Keyword) (elements : List Json)
    (found : get? keyword.text members =
      if elements = [] then none else some (.array elements)) :
    listAt keyword members = ofElements elements := by
  rw [listAt_eq, found]
  cases elements <;> rfl

theorem propertiesIn_eq_ofEntries (entries : Members Json)
    (found : get? "properties" members =
      if entries = [] then none else some (.object entries)) :
    propertiesIn members = ofEntries entries := by
  rw [propertiesIn_eq, Keyword.text, found]
  cases entries <;> rfl

end Parts

theorem exists_members {schema : Schema} (inline : schema.isBoolean = false) :
    ∃ members, schema.toJson = .object members := by
  cases schema with
  | boolean => cases inline
  | reference target => exact ⟨_, by rw [toJson]; rfl⟩
  | object shape => exact ⟨_, toJson_eq_around rfl⟩
  | array shape => exact ⟨_, toJson_eq_around rfl⟩
  | map shape => exact ⟨_, toJson_eq_around rfl⟩
  | composed shape => exact ⟨_, toJson_eq_around rfl⟩
  | primitive leaf => exact ⟨_, toJson_eq_around rfl⟩

/-- What is said about undeclared properties, written and read again. -/
def readAdditional : AdditionalProperties → Except Fault AdditionalProperties
  | .unspecified => .ok .unspecified
  | .allowed value => .ok (.allowed value)
  | .values schema => do pure (.values (← ofJson schema.toJson))

theorem additionalIn_eq_readAdditional {members : Members Json} {additional : AdditionalProperties}
    (inline : ∀ child, additional = .values child → child.isBoolean = false)
    (found : get? "additionalProperties" members =
      get? "additionalProperties" (additionalMember additional)) :
    additionalIn members = readAdditional additional := by
  rw [additionalIn_eq, Keyword.text, found]
  cases additional with
  | unspecified => rfl
  | allowed value => rfl
  | values child =>
      rcases exists_members (inline child rfl) with ⟨inner, same⟩
      simp only [additionalMember, get?_cons, if_true, same, readAdditional]

end Schema

end SchemaLift
