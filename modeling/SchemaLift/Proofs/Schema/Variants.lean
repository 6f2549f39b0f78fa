import SchemaLift.Proofs.Schema.Metadata

/-!
# Variants of schemas, read by lookups and filters

An object that is not a reference is a combination, an array, an object or map, or a leaf. Which it
is and what is read of it follow from lookups among its members, and its metadata are read from the
members that the variant leaves over (`Schema.leftOver`). The keys that decide on the variant are
never left over, since they are absent or taken.
-/

namespace SchemaLift.Schema

open Members

/-! ## What a variant leaves over -/

/-- Whether the list of required properties is read from the member. -/
def isRequired (member : String × Json) : Bool :=
  member.1 == "required" && member.2.strings?.isSome

/-- Whether the format is read from the member. -/
def isFormat (member : String × Json) : Bool :=
  member.1 == "format" && member.2.string?.isSome

/-- The members of an object that its metadata are read from. -/
def leftOver (settled : List String) (typed : String × Json → Bool) (members : Members Json) :
    Members Json :=
  (moveToEnd "$ref" members).filter fun member => !settled.contains member.1 && !typed member

/-- The required properties among the members of an object. -/
def requiredIn (members : Members Json) : List String :=
  ((get? "required" members).bind Json.strings?).getD []

/-- The keys that no combination leaves over. -/
def combinationKeys : List String :=
  ["allOf", "anyOf", "oneOf", "properties", "discriminator"]

/-- The keys that no array leaves over. -/
def arrayKeys : List String :=
  ["allOf", "anyOf", "oneOf", "items"]

/-- The keys that no object or map leaves over. -/
def objectKeys : List String :=
  ["allOf", "anyOf", "oneOf", "items", "properties", "additionalProperties", "discriminator"]

/-- The keys that no leaf leaves over. -/
def leafKeys : List String :=
  ["allOf", "anyOf", "oneOf", "items", "properties", "additionalProperties", "enum"]

/-! ## Variants -/

/-- The combination that an object is. -/
def combinationOf (members : Members Json) : Except Fault Schema := do
  let allOf ← listAt .allOf members
  let anyOf ← listAt .anyOf members
  let oneOf ← listAt .oneOf members
  let properties ← propertiesIn members
  let discriminator ← Discriminator.ofMembers members
  let metadata ← Metadata.ofMembers (leftOver combinationKeys isRequired members)
  pure (.composed
    ⟨allOf, anyOf, oneOf, properties, requiredIn members, discriminator, metadata⟩)

/-- The array that an object is. -/
def arrayOf (members : Members Json) : Except Fault Schema := do
  let items ← itemsIn members
  let metadata ← Metadata.ofMembers (leftOver arrayKeys (fun _ => false) members)
  pure (.array ⟨items, metadata⟩)

/-- The object or map that an object is. -/
def objectOf (members : Members Json) : Except Fault Schema := do
  let properties ← propertiesIn members
  let additional ← additionalIn members
  match additional, properties.isEmpty && !has "discriminator" members with
  | .values value, true => do
    let metadata ← Metadata.ofMembers (leftOver objectKeys (fun _ => false) members)
    pure (.map ⟨value, metadata⟩)
  | additional, _ => do
    let discriminator ← Discriminator.ofMembers members
    let metadata ← Metadata.ofMembers (leftOver objectKeys isRequired members)
    pure (.object ⟨properties, requiredIn members, additional, discriminator, metadata⟩)

/-- The leaf that an object is. -/
def leafOf (members : Members Json) : Except Fault Schema := do
  let enumValues ← PrimitiveSchema.enumValuesOf members
  let metadata ← Metadata.ofMembers (leftOver leafKeys isFormat members)
  pure (.primitive ⟨(get? "format" members).bind Json.string?, enumValues, metadata⟩)

section Results

variable {members : Members Json} {schema : Schema}

theorem exists_of_combinationOf (read : combinationOf members = .ok schema) :
    ∃ shape, schema = .composed shape := by
  simp only [combinationOf, bind_eq_ok_iff, pure_eq_ok_iff] at read
  obtain ⟨_, _, _, _, _, _, _, _, _, _, _, _, rfl⟩ := read
  exact ⟨_, rfl⟩

theorem exists_of_arrayOf (read : arrayOf members = .ok schema) :
    ∃ shape, schema = .array shape := by
  simp only [arrayOf, bind_eq_ok_iff, pure_eq_ok_iff] at read
  obtain ⟨_, _, _, _, rfl⟩ := read
  exact ⟨_, rfl⟩

theorem exists_of_objectOf (read : objectOf members = .ok schema) :
    (∃ shape, schema = .object shape) ∨ ∃ shape, schema = .map shape := by
  rcases bind_eq_ok_iff.mp read with ⟨_, _, read⟩
  rcases bind_eq_ok_iff.mp read with ⟨_, _, read⟩
  split at read
  · simp only [bind_eq_ok_iff, pure_eq_ok_iff] at read
    obtain ⟨_, _, rfl⟩ := read
    exact Or.inr ⟨_, rfl⟩
  · simp only [bind_eq_ok_iff, pure_eq_ok_iff] at read
    obtain ⟨_, _, _, _, rfl⟩ := read
    exact Or.inl ⟨_, rfl⟩

theorem exists_of_leafOf (read : leafOf members = .ok schema) :
    ∃ leaf, schema = .primitive leaf := by
  simp only [leafOf, bind_eq_ok_iff, pure_eq_ok_iff] at read
  obtain ⟨_, _, _, _, rfl⟩ := read
  exact ⟨_, rfl⟩

end Results

section Object

variable {members : Members Json} (distinct : Distinct members)

include distinct

theorem get?_filter_withoutReference {key : String} {keep : String × Json → Bool}
    (kept : ∀ value, keep (key, value) = true) :
    get? key ((withoutReference members).filter keep) = get? key members := by
  rw [withoutReference, (distinct.moveToEnd _).get?_filter, get?_moveToEnd distinct]
  cases get? key members with
  | none => rfl
  | some value => exact Option.filter_some_pos (kept value)

theorem distinct_withoutReference : Distinct (withoutReference members) :=
  distinct.moveToEnd _

theorem discriminator_filter {keep : String × Json → Bool}
    (kept : ∀ value, keep ("discriminator", value) = true) :
    Discriminator.ofMembers ((withoutReference members).filter keep) =
      Discriminator.ofMembers members :=
  Discriminator.ofMembers_congr (get?_filter_withoutReference distinct kept)

theorem requiredIn_filter {keep : String × Json → Bool}
    (kept : ∀ value, keep ("required", value) = true) :
    requiredIn ((withoutReference members).filter keep) = requiredIn members := by
  rw [requiredIn, get?_filter_withoutReference distinct kept, requiredIn]

/-- Two descriptions of what is left over, which agree about the keys that may be there. -/
theorem filter_withoutReference {keep : String × Json → Bool} {absent settled : List String}
    {typed : String × Json → Bool} (foreign : ∀ key ∈ absent, key ∉ keys members)
    (same : ∀ member : String × Json, member.1 ∉ absent →
      keep member = (!settled.contains member.1 && !typed member)) :
    (withoutReference members).filter keep = leftOver settled typed members := by
  apply List.filter_congr
  intro member present
  apply same member
  intro known
  exact foreign _ known (mem_keys_of_mem ((mem_moveToEnd distinct).mp present))

omit distinct in
theorem takeRequired_eq (distinct : Distinct members) :
    takeRequired members =
      (requiredIn members, members.filter fun member => !isRequired member) := by
  rw [takeRequired, takeAs_eq distinct]
  rfl

/-! ### Combinations -/

/-- What is read of a combination. -/
theorem combination_rest :
    (do
      let allOf ← listAt .allOf members
      let anyOf ← listAt .anyOf members
      let oneOf ← listAt .oneOf members
      let properties ← propertiesIn members
      let (required, rest) := takeRequired (withoutReference members)
      let discriminator ← Discriminator.ofMembers rest
      let metadata ← Metadata.ofMembers
        (without [.allOf, .anyOf, .oneOf, .properties, .discriminator] rest)
      pure (.composed ⟨allOf, anyOf, oneOf, properties, required, discriminator, metadata⟩)) =
      combinationOf members := by
  have required : requiredIn (withoutReference members) = requiredIn members := by
    rw [requiredIn, withoutReference, get?_moveToEnd distinct, requiredIn]
  have discriminator : Discriminator.ofMembers
      ((withoutReference members).filter fun member => !isRequired member) =
        Discriminator.ofMembers members :=
    discriminator_filter distinct (by simp [isRequired])
  have rest : without [.allOf, .anyOf, .oneOf, .properties, .discriminator]
      ((withoutReference members).filter fun member => !isRequired member) =
        leftOver combinationKeys isRequired members := by
    rw [without, List.filter_filter]
    rfl
  rw [takeRequired_eq (distinct_withoutReference distinct)]
  simp only [combinationOf, discriminator, required, rest]

omit distinct in
theorem not_mem_of_combines (alone : combines members = false) :
    ∀ key ∈ ["allOf", "anyOf", "oneOf"], key ∉ keys members := by
  simpa [combines, has_eq_isSome, Keyword.text, get?_eq_none_iff] using alone

/-! ### Arrays -/

theorem leftOver_array (alone : combines members = false) :
    erase "items" (withoutReference members) = leftOver arrayKeys (fun _ => false) members := by
  apply filter_withoutReference distinct (not_mem_of_combines alone)
  intro member differs
  simp at differs
  simp [arrayKeys, differs]

/-! ### Objects and maps -/

section

variable (foreign : ∀ key ∈ ["allOf", "anyOf", "oneOf", "items"], key ∉ keys members)

include foreign

theorem leftOver_object :
    without [.discriminator] ((withoutReference members).filter fun member =>
        !isRequired member && !(["properties", "additionalProperties"].contains member.1)) =
      leftOver objectKeys isRequired members := by
  rw [without, List.filter_filter]
  apply filter_withoutReference distinct foreign
  intro member differs
  simp at differs
  simp [objectKeys, Keyword.text, differs]
  grind

theorem leftOver_map (untold : has "discriminator" members = false) :
    without [.properties, .additionalProperties] (withoutReference members) =
      leftOver objectKeys (fun _ => false) members := by
  have absent : ∀ key ∈ "discriminator" :: ["allOf", "anyOf", "oneOf", "items"],
      key ∉ keys members := by
    rintro key (_ | ⟨_, known⟩)
    · simpa [has_eq_isSome, get?_eq_none_iff] using untold
    · exact foreign key known
  apply filter_withoutReference distinct absent
  intro member differs
  simp at differs
  simp [objectKeys, Keyword.text, differs]

/-- What is read of an object that is neither a combination nor an array. -/
theorem object_rest :
    (do
      let properties ← propertiesIn members
      let additional ← additionalIn members
      let rest := without [.properties, .additionalProperties] (withoutReference members)
      match additional with
      | .values value =>
        if properties.isEmpty && !has "discriminator" rest then
          pure (.map ⟨value, ← Metadata.ofMembers rest⟩)
        else
          let (required, rest) := takeRequired rest
          let discriminator ← Discriminator.ofMembers rest
          let metadata ← Metadata.ofMembers (without [.discriminator] rest)
          pure (.object ⟨properties, required, .values value, discriminator, metadata⟩)
      | additional =>
        let (required, rest) := takeRequired rest
        let discriminator ← Discriminator.ofMembers rest
        let metadata ← Metadata.ofMembers (without [.discriminator] rest)
        pure (.object ⟨properties, required, additional, discriminator, metadata⟩)) =
      objectOf members := by
  have told : has "discriminator"
      (without [.properties, .additionalProperties] (withoutReference members)) =
        has "discriminator" members := by
    rw [has_eq_isSome, has_eq_isSome, without, get?_filter_withoutReference distinct]
    simp [Keyword.text]
  have required : takeRequired
      (without [.properties, .additionalProperties] (withoutReference members)) =
        (requiredIn members, (withoutReference members).filter fun member =>
          !isRequired member && !(["properties", "additionalProperties"].contains member.1)) := by
    rw [without, takeRequired_eq ((distinct_withoutReference distinct).filter _),
      requiredIn_filter distinct (by simp [Keyword.text]), List.filter_filter]
    rfl
  have discriminator : Discriminator.ofMembers ((withoutReference members).filter fun member =>
      !isRequired member && !(["properties", "additionalProperties"].contains member.1)) =
        Discriminator.ofMembers members :=
    discriminator_filter distinct (by simp [isRequired])
  rw [objectOf]
  congr 1
  funext properties
  congr 1
  funext additional
  simp only [told, required, discriminator, leftOver_object distinct foreign]
  cases additional with
  | values value =>
      cases alone : properties.isEmpty && !has "discriminator" members with
      | true =>
          simp only [Bool.and_eq_true, Bool.not_eq_true'] at alone
          simp [leftOver_map distinct foreign alone.2]
      | false => simp
  | unspecified => rfl
  | allowed => rfl

end

/-! ### Leaves -/

/-- What is read of an object that is nothing else. -/
theorem leaf_rest (foreign : ∀ key ∈
      ["allOf", "anyOf", "oneOf", "items", "properties", "additionalProperties"],
      key ∉ keys members) :
    (do pure (.primitive (← PrimitiveSchema.ofMembers (withoutReference members)))) =
      leafOf members := by
  have enumValues : PrimitiveSchema.enumValuesOf
      ((withoutReference members).filter fun member => !isFormat member) =
        PrimitiveSchema.enumValuesOf members := by
    have found : get? "enum" ((withoutReference members).filter fun member => !isFormat member) =
        get? "enum" members :=
      get?_filter_withoutReference distinct (by simp [isFormat])
    simp only [PrimitiveSchema.enumValuesOf, Keyword.text, found]
  have rest : erase "enum" ((withoutReference members).filter fun member => !isFormat member) =
      leftOver leafKeys isFormat members := by
    rw [erase, List.filter_filter]
    apply filter_withoutReference distinct foreign
    intro member differs
    simp at differs
    simp [leafKeys, differs]
  have format : takeAs Json.string? "format" (withoutReference members) =
      ((get? "format" members).bind Json.string?,
        (withoutReference members).filter fun member => !isFormat member) := by
    rw [takeAs_eq (distinct_withoutReference distinct), withoutReference, get?_moveToEnd distinct]
    rfl
  simp only [PrimitiveSchema.ofMembers, format, enumValues, Keyword.text, rest, leafOf,
    bind_assoc, pure_bind]

/-! ### All variants -/

/-- The schema that an object is if it is not a reference. -/
theorem ofJson_object_eq (inline : Reference.ofMembers? members = none) :
    ofJson (.object members) =
      if combines members then combinationOf members
      else (do
        let declared ← DeclaredType.ofMembers members
        if declares declared "array" || has "items" members then arrayOf members
        else if declares declared "object" || has "properties" members ||
            has "additionalProperties" members then objectOf members
        else leafOf members) := by
  rw [ofJson, inline]
  simp only
  split
  · exact combination_rest distinct
  · next alone =>
      have alone : combines members = false := by simpa using alone
      have parts := not_mem_of_combines alone
      congr 1
      funext declared
      split
      · rw [leftOver_array distinct alone]
        rfl
      · next notArray =>
          simp only [Bool.or_eq_true, not_or, has_iff_mem_keys] at notArray
          split
          · apply object_rest distinct
            simpa [or_imp, forall_and, notArray.2] using parts
          · next notObject =>
              simp only [Bool.or_eq_true, not_or, has_iff_mem_keys] at notObject
              apply leaf_rest distinct
              simpa [or_imp, forall_and, notArray.2, notObject] using parts

/-- How a schema is read from an object. -/
inductive ReadFrom (members : Members Json) (schema : Schema) : Prop
  | reference {target : Reference} (found : Reference.ofMembers? members = some target)
      (same : schema = .reference target) : ReadFrom members schema
  | combination (inline : Reference.ofMembers? members = none) (combined : combines members = true)
      (read : combinationOf members = .ok schema) : ReadFrom members schema
  | array (inline : Reference.ofMembers? members = none) {declared : Option DeclaredType}
      (own : DeclaredType.ofMembers members = .ok declared)
      (array : (declares declared "array" || has "items" members) = true)
      (read : arrayOf members = .ok schema) : ReadFrom members schema
  | object (inline : Reference.ofMembers? members = none) {declared : Option DeclaredType}
      (own : DeclaredType.ofMembers members = .ok declared)
      (notArray : declares declared "array" = false)
      (read : objectOf members = .ok schema) : ReadFrom members schema
  | leaf (inline : Reference.ofMembers? members = none) {declared : Option DeclaredType}
      (own : DeclaredType.ofMembers members = .ok declared)
      (notArray : declares declared "array" = false)
      (notObject : declares declared "object" = false)
      (read : leafOf members = .ok schema) : ReadFrom members schema

theorem readFrom_of_ofJson {schema : Schema} (read : ofJson (.object members) = .ok schema) :
    ReadFrom members schema := by
  cases inline : Reference.ofMembers? members with
  | some target =>
      rw [ofJson, inline] at read
      cases read
      exact ReadFrom.reference inline rfl
  | none =>
      rw [ofJson_object_eq distinct inline] at read
      split at read
      · next combined => exact ReadFrom.combination inline combined read
      · rcases bind_eq_ok_iff.mp read with ⟨declared, own, read⟩
        split at read
        · next array => exact ReadFrom.array inline own array read
        · next notArray =>
            rw [Bool.or_eq_true, not_or, Bool.not_eq_true] at notArray
            split at read
            · exact ReadFrom.object inline own notArray.1 read
            · next notObject =>
                rw [Bool.or_eq_true, Bool.or_eq_true, not_or, not_or, Bool.not_eq_true] at notObject
                exact ReadFrom.leaf inline own notArray.1 notObject.1.1 read

end Object

end SchemaLift.Schema
