import SchemaLift.Proofs.Flatten.Sharing
import SchemaLift.Proofs.Schema.Congruence

/-!
# Equal schemas are interchangeable

An inline schema is dropped when a component is known that equals it. On the schemas that can be
read, equality is an equivalence, and nothing that decides about a schema tells equal ones apart
(`Schema.equivalence_interchangeable`): they are extracted from the same positions, under the same
base names, they share the same components, and they are written as equal values.
-/

namespace SchemaLift

theorem sameOption_isNone {α : Type} {related : α → α → Bool} {left right : Option α}
    (equal : sameOption related left right = true) : left.isNone = right.isNone := by
  rw [← Option.not_isSome, ← Option.not_isSome, sameOption_isSome equal]

theorem Metadata.onlyRelabels_eq_of_same {left right : Metadata} (equal : left.same right = true) :
    left.onlyRelabels = right.onlyRelabels := by
  simp only [same, Bool.and_eq_true, beq_iff_eq] at equal
  rcases equal with ⟨⟨⟨⟨plain, default⟩, sample⟩, extensions⟩, extra⟩
  have empty {members others : Members Json} (same : Json.sameMap members others = true) :
      members.isEmpty = others.isEmpty :=
    isEmpty_eq_of_length_eq ((Json.sameMap_iff_matches members others).mp same).1
  simp only [onlyRelabels, plain, sameOption_isNone default, sameOption_isNone sample,
    empty extensions, empty extra]

namespace Schema

variable {left right : Schema}

/-! ## Extraction -/

theorem isTrivial_eq_of_same {shape other : ComposedSchema}
    (equal : (Schema.composed shape).same (.composed other) = true) :
    shape.isTrivial = other.isTrivial := by
  rcases shape with ⟨allOf, anyOf, oneOf, properties, required, discriminator, metadata⟩
  simp only [same, Bool.and_eq_true, beq_iff_eq, sameList_iff_forall₂] at equal
  rcases equal with ⟨⟨⟨⟨⟨⟨⟨parts, any⟩, one⟩, count⟩, _⟩, rfl⟩, told⟩, data⟩
  simp only [ComposedSchema.isTrivial, isEmpty_eq_of_length_eq any.length_eq,
    isEmpty_eq_of_length_eq one.length_eq, isEmpty_eq_of_length_eq count, sameOption_isNone told]
  congr 1
  generalize other.allOf = others at parts
  cases parts with
  | nil => rfl
  | cons fits rest =>
      cases rest with
      | nil => simp only [isReference_of_same fits, Metadata.onlyRelabels_eq_of_same data]
      | cons => rfl

theorem isExtractable_eq_of_same (equal : left.same right = true) (policy : Policy) :
    left.isExtractable policy = right.isExtractable policy := by
  have own := ((same_iff left right).mp equal).1
  cases left <;> cases right <;>
    simp only [sameOwn, Bool.false_eq_true, Bool.and_eq_true] at own
  case object =>
    have count := ((Members.same_iff_matches _ _ _).mp own.1.1.1.1).1
    rw [isExtractable, isExtractable, isEmpty_eq_of_length_eq count]
  case composed => rw [isExtractable, isExtractable, isTrivial_eq_of_same equal]
  case primitive =>
    have count := ((PrimitiveSchema.same_iff _ _).mp own).2.1.length_eq
    rw [isExtractable, isExtractable, isEmpty_eq_of_length_eq count]
  all_goals rfl

theorem isAlternativeExtractable_eq_of_same (equal : left.same right = true) (policy : Policy) :
    left.isAlternativeExtractable policy = right.isAlternativeExtractable policy := by
  have extractable := isExtractable_eq_of_same equal policy
  have own := ((same_iff left right).mp equal).1
  cases left <;> cases right <;> simp only [sameOwn, Bool.false_eq_true] at own
  case object => rfl
  all_goals exact extractable

/-! ## Names -/

theorem title?_eq_of_same (equal : left.same right = true) : left.title? = right.title? := by
  have metadata := sameOption_metadata? equal
  rw [title?, title?]
  cases found : left.metadata? <;> cases there : right.metadata? <;>
    simp only [found, there, sameOption, Bool.false_eq_true] at metadata
  case none => rfl
  case some =>
    simp only [Metadata.same, Bool.and_eq_true, beq_iff_eq] at metadata
    simp only [Option.bind_some, metadata]

theorem baseName_eq_of_same (equal : left.same right = true) (config : Config) (derived : String) :
    config.baseName left derived = config.baseName right derived := by
  have name : Naming.synthesized left derived = Naming.synthesized right derived := by
    rw [Naming.synthesized, Naming.synthesized, title?_eq_of_same equal]
  rw [Config.baseName, Config.baseName, name]

/-! ## Equality of schemas that can be read -/

/-- One schema can stand for the other: nothing that is decided about a schema, and nothing that is
written of it, depends on which of them it is. -/
structure Interchangeable (left right : Schema) : Prop where
  extractable : ∀ policy, left.isExtractable policy = right.isExtractable policy
  alternative : ∀ policy,
    left.isAlternativeExtractable policy = right.isAlternativeExtractable policy
  baseName : ∀ (config : Config) derived,
    config.baseName left derived = config.baseName right derived
  shared : ∀ (registry : Registry) base,
    registry.reusable? base left = registry.reusable? base right
  written : (left.toJson == right.toJson) = true

theorem interchangeable_of_same (distinct : left.DistinctKeys) (equal : left.same right = true) :
    Interchangeable left right := by
  constructor
  · exact isExtractable_eq_of_same equal
  · exact isAlternativeExtractable_eq_of_same equal
  · exact baseName_eq_of_same equal
  · exact fun registry base => Registry.reusable?_congr distinct equal
  · exact same_toJson distinct equal

/-- The schemas that are read from values in which no object has a key twice. -/
def Readable :=
  { schema : Schema // ∃ value : Json, value.DistinctKeys ∧ ofJson value = .ok schema }

theorem Readable.distinctKeys (schema : Readable) : schema.val.DistinctKeys := by
  rcases schema.property with ⟨value, distinct, read⟩
  exact distinctKeys_of_ofJson distinct read

/-- On the schemas that can be read, equality is reflexive, symmetric and transitive, and equal
schemas are interchangeable. -/
theorem equivalence_interchangeable :
    Equivalence (fun left right : Readable => (left.val == right.val) = true) ∧
      ∀ left right : Readable, (left.val == right.val) = true →
        Interchangeable left.val right.val := by
  refine ⟨⟨fun schema => ?_, fun {left _} equal => ?_, fun first second => ?_⟩,
    fun left right equal => ?_⟩
  · exact same_refl schema.distinctKeys
  · exact same_symm left.distinctKeys equal
  · exact same_trans first second
  · exact interchangeable_of_same left.distinctKeys equal

/-- A price, whose amount is zero unless it is told. -/
def price : Json :=
  .object
    [("title", .string "Price"),
      ("properties", .object
        [("amount", .object [("default", .number (.binary64 (.zero false)))]),
          ("currency", .object [("type", .string "string"), ("enum", .strings ["EUR", "USD"])])])]

/-- The same with its members in another order, and with the other zero. -/
def rearrangedPrice : Json :=
  .object
    [("properties", .object
        [("currency", .object [("enum", .strings ["EUR", "USD"]), ("type", .string "string")]),
          ("amount", .object [("default", .number (.binary64 (.zero true)))])]),
      ("title", .string "Price")]

theorem distinctKeys_price : price.DistinctKeys ∧ rearrangedPrice.DistinctKeys := by
  have text : ∀ text, (Json.string text).DistinctKeys := fun _ =>
    Json.distinctKeys_of_parts_eq_nil rfl
  have number : ∀ number, (Json.number number).DistinctKeys := fun _ =>
    Json.distinctKeys_of_parts_eq_nil rfl
  have texts : ∀ values, (Json.strings values).DistinctKeys := fun values =>
    (Json.proper_strings values).distinctKeys
  constructor <;>
    simp [price, rearrangedPrice, ← Json.distinctMap_iff_distinctKeys, Json.distinctMap_cons_iff,
      Json.distinctMap_nil, text, number, texts]

/-- The two prices are read as equal schemas, with properties in different orders, and these are
interchangeable. -/
theorem prices_interchangeable :
    ∃ left right : Readable, ofJson price = .ok left.val ∧
      ofJson rearrangedPrice = .ok right.val ∧
      Members.keys left.val.properties ≠ Members.keys right.val.properties ∧
      (left.val == right.val) = true ∧ Interchangeable left.val right.val := by
  have evaluated : ((ofJson price).toOption.any fun left =>
      (ofJson rearrangedPrice).toOption.any fun right =>
        Members.keys left.properties != Members.keys right.properties && left == right) =
          true := by
    decide +kernel
  simp only [any_toOption_iff, Bool.and_eq_true, bne_iff_ne] at evaluated
  obtain ⟨left, read, right, readToo, differ, equal⟩ := evaluated
  let first : Readable := ⟨left, price, distinctKeys_price.1, read⟩
  let second : Readable := ⟨right, rearrangedPrice, distinctKeys_price.2, readToo⟩
  exact ⟨first, second, read, readToo, differ, equal,
    equivalence_interchangeable.2 first second equal⟩

end Schema

end SchemaLift
