import SchemaLift.Flatten.DiscriminatorValue
import SchemaLift.Proofs.Schema.Equality

/-!
# Hoisting as a step on trees

A combination is visited after the discriminator value of one of its parts has gone to it
(`Schema.hoisted`). The children then hang at the same edges as before, and one of the parts may
have lost its value. Since a lost value makes no schema larger, there is induction on the children
after hoisting as well (`Schema.induction_hoisted`).
-/

namespace SchemaLift

namespace Children

theorem related_ofMembers {related : Edge → Schema → Schema → Prop} {keyword : Keyword}
    {left right : List Schema}
    (all : List.Forall₂ (fun schema other => ∀ index,
      related (.member keyword index) schema other) left right) (index : Nat) :
    Members.Related related (ofMembers keyword index left) (ofMembers keyword index right) := by
  induction all generalizing index with
  | nil => exact Members.Related.nil
  | cons fits _ ih => exact Members.Related.cons (fits index) (ih (index + 1))

end Children

/-- A combination that no value is lifted to stays as it is. -/
theorem ComposedSchema.lifted_eq_self {combination : ComposedSchema}
    (none : combination.liftedValue? = none) : combination.lifted = combination := by
  simp only [lifted, liftedMetadata, none, Option.isSome_none, Bool.false_eq_true, if_false]
  cases combination
  rfl

namespace Schema

/-! ## A lost value changes nothing else -/

@[simp]
theorem children_bare (lifted : Bool) (schema : Schema) :
    (schema.bare lifted).children = schema.children := by
  cases schema <;> rfl

theorem metadata?_bare (lifted : Bool) (schema : Schema) :
    (schema.bare lifted).metadata? = schema.metadata?.map (Metadata.bare lifted) := by
  cases schema <;> rfl

/-! ## The combination after hoisting -/

/-- A combination with the discriminator value of its parts; other schemas stay as they are. -/
def hoisted : Schema → Schema
  | .composed shape => .composed shape.lifted
  | schema => schema

@[simp]
theorem isReference_hoisted (schema : Schema) :
    schema.hoisted.isReference = schema.isReference := by
  cases schema <;> rfl

theorem forall₂_bareParts (parts : List Schema) :
    List.Forall₂ (fun part bared => ∃ lifted, bared = part.bare lifted) parts
      (bareParts parts) := by
  induction parts with
  | nil => exact List.Forall₂.nil
  | cons part rest ih =>
      rw [bareParts]
      split
      · refine List.Forall₂.cons ⟨true, rfl⟩ (List.forall₂_same.mpr fun other _ => ?_)
        exact ⟨false, other.bare_not_lifted.symm⟩
      · exact List.Forall₂.cons ⟨false, part.bare_not_lifted.symm⟩ ih

theorem forall₂_lifted_allOf (combination : ComposedSchema) :
    List.Forall₂ (fun part bared => ∃ lifted, bared = part.bare lifted) combination.allOf
      combination.lifted.allOf := by
  simp only [ComposedSchema.lifted]
  split
  · exact forall₂_bareParts combination.allOf
  · exact List.forall₂_same.mpr fun part _ => ⟨false, part.bare_not_lifted.symm⟩

/-- After hoisting the same children hang at the same edges, and only parts may have lost a
value. -/
theorem related_children_hoisted (schema : Schema) :
    Members.Related
      (fun edge child hoistedChild => ∃ lifted, hoistedChild = child.bare lifted ∧
        (edge.role ≠ .part → lifted = false))
      schema.children schema.hoisted.children := by
  have unchanged : ∀ children : Children, Members.Related
      (fun edge child hoistedChild => ∃ lifted, hoistedChild = child.bare lifted ∧
        (edge.role ≠ .part → lifted = false)) children children := by
    intro children
    exact Members.Related.refl fun edge child _ =>
      ⟨false, child.bare_not_lifted.symm, fun _ => rfl⟩
  cases schema with
  | composed combination =>
      refine (unchanged _).append (Members.Related.append ?_ (unchanged _))
      refine Children.related_ofMembers ?_ 0
      apply (forall₂_lifted_allOf combination).imp
      intro part bared same index
      rcases same with ⟨lifted, equal⟩
      exact ⟨lifted, equal, fun notPart => absurd rfl notPart⟩
  | reference => exact unchanged _
  | object => exact unchanged _
  | array => exact unchanged _
  | map => exact unchanged _
  | primitive => exact unchanged _
  | boolean => exact unchanged _

theorem keys_children_hoisted (schema : Schema) :
    Members.keys schema.hoisted.children = Members.keys schema.children :=
  schema.related_children_hoisted.keys_eq

theorem exists_bare_of_mem_children_hoisted {schema child : Schema} {edge : Edge}
    (below : (edge, child) ∈ schema.hoisted.children) :
    ∃ original lifted, (edge, original) ∈ schema.children ∧ child = original.bare lifted := by
  obtain ⟨original, present, lifted, equal, _⟩ :=
    schema.related_children_hoisted.exists_left below
  exact ⟨original, lifted, present, equal⟩

/-- What holds of a schema if it holds of the schemas below it after hoisting holds of every
schema. -/
@[elab_as_elim]
theorem induction_hoisted {motive : Schema → Prop}
    (step : ∀ schema, (∀ edge child, (edge, child) ∈ schema.hoisted.children → motive child) →
      motive schema) (schema : Schema) : motive schema := by
  have all : ∀ lifted, motive (schema.bare lifted) := by
    induction schema using induction with
    | step schema ih =>
        intro lifted
        apply step _
        intro edge child below
        rcases exists_bare_of_mem_children_hoisted below with ⟨original, lost, present, rfl⟩
        rw [children_bare] at present
        exact ih edge original present lost
  simpa using all false

end Schema

/-! ## Distinct keys -/

namespace Metadata.DistinctKeys

variable {metadata : Metadata}

theorem bare (distinct : metadata.DistinctKeys) (lifted : Bool) :
    (metadata.bare lifted).DistinctKeys := by
  cases lifted with
  | false => exact distinct
  | true =>
      rcases distinct with ⟨default, sample, extensions, extra⟩
      refine ⟨default, sample, ⟨extensions.1.erase _, fun key value present => ?_⟩, extra⟩
      exact extensions.2 key value (Members.mem_erase_iff.mp present).1

theorem withDiscriminatorValue (distinct : metadata.DistinctKeys) {value : Json}
    (own : value.DistinctKeys) : (metadata.withDiscriminatorValue value).DistinctKeys := by
  rcases distinct with ⟨default, sample, extensions, extra⟩
  have keys := extensions.1.set discriminatorValueKey value
  refine ⟨default, sample, ⟨keys, fun key found present => ?_⟩, extra⟩
  have lookup := keys.get?_eq_some present
  rw [Members.get?_set] at lookup
  split at lookup
  · cases lookup
    exact own
  · exact extensions.2 key found (Members.mem_of_get?_eq_some lookup)

theorem discriminatorValue? (distinct : metadata.DistinctKeys) {value : Json}
    (found : metadata.discriminatorValue? = some value) : value.DistinctKeys :=
  distinct.extensions.2 _ value (Members.mem_of_get?_eq_some found)

end Metadata.DistinctKeys

namespace Schema

theorem DistinctKeys.metadata {schema : Schema} (distinct : schema.DistinctKeys)
    {metadata : Metadata} (found : schema.metadata? = some metadata) : metadata.DistinctKeys := by
  rcases distinct with ⟨own, _, _⟩
  cases schema <;> simp only [metadata?, Option.some.injEq, reduceCtorEq] at found <;> subst found
  case object => exact own.2
  case array => exact own
  case map => exact own
  case composed => exact own.2
  case primitive => exact own.metadata

theorem DistinctKeys.discriminatorValue? {schema : Schema} (distinct : schema.DistinctKeys)
    {value : Json} (found : schema.discriminatorValue? = some value) : value.DistinctKeys := by
  rcases Option.bind_eq_some_iff.mp found with ⟨metadata, own, inside⟩
  exact (distinct.metadata own).discriminatorValue? inside

theorem DistinctKeys.bare {schema : Schema} (distinct : schema.DistinctKeys) (lifted : Bool) :
    (schema.bare lifted).DistinctKeys := by
  rcases distinct with ⟨own, names, below⟩
  refine DistinctKeys.intro ?_ ?_ (by simpa using below)
  · cases schema with
    | reference => exact own
    | object => exact ⟨own.1, own.2.bare lifted⟩
    | array => exact Metadata.DistinctKeys.bare own lifted
    | map => exact Metadata.DistinctKeys.bare own lifted
    | composed => exact ⟨own.1, own.2.bare lifted⟩
    | primitive => exact ⟨own.enumValues, own.metadata.bare lifted⟩
    | boolean => exact own
  · cases schema <;> exact names

theorem exists_mem_of_findSome?_discriminatorValue? {parts : List Schema} {value : Json}
    (found : parts.findSome? Schema.discriminatorValue? = some value) :
    ∃ part ∈ parts, part.discriminatorValue? = some value := by
  rcases List.findSome?_eq_some_iff.mp found with ⟨front, part, back, rfl, here, _⟩
  exact ⟨part, by simp, here⟩

theorem exists_member_children {combination : ComposedSchema} {part : Schema}
    (present : part ∈ combination.allOf) :
    ∃ index, (.member .allOf index, part) ∈ children (.composed combination) := by
  rcases List.mem_iff_getElem?.mp present with ⟨index, found⟩
  refine ⟨index, Members.mem_of_get?_eq_some ?_⟩
  rw [get?_member_children_composed]
  exact found

theorem DistinctKeys.hoisted {schema : Schema} (distinct : schema.DistinctKeys) :
    schema.hoisted.DistinctKeys := by
  rcases distinct with ⟨own, names, below⟩
  refine DistinctKeys.intro ?_ ?_ fun edge child present => ?_
  · cases schema <;> try exact own
    next combination =>
    refine ⟨own.1, ?_⟩
    simp only [ComposedSchema.lifted, ComposedSchema.liftedMetadata]
    split
    · next value found =>
        simp only [ComposedSchema.liftedValue?] at found
        split at found
        · contradiction
        · rcases exists_mem_of_findSome?_discriminatorValue? found with ⟨part, present, inside⟩
          rcases exists_member_children present with ⟨index, child⟩
          exact own.2.withDiscriminatorValue ((below _ _ child).discriminatorValue? inside)
    · exact own.2
  · cases schema <;> exact names
  · rcases exists_bare_of_mem_children_hoisted present with ⟨original, lifted, inside, rfl⟩
    exact (below edge original inside).bare lifted

end Schema

/-! ## Hoisting in equal schemas -/

namespace Metadata

variable {left right : Metadata}

theorem same_withExtensions (equal : left.same right = true) {extensions others : Members Json}
    (same : Json.sameMap extensions others = true) :
    { left with extensions := extensions }.same { right with extensions := others } = true := by
  simp only [Metadata.same, Bool.and_eq_true] at equal ⊢
  exact ⟨⟨equal.1.1, same⟩, equal.2⟩

theorem matches_extensions (equal : left.same right = true) :
    Members.Matches (fun value other => value.same other = true) left.extensions
      right.extensions := by
  simp only [Metadata.same, Bool.and_eq_true] at equal
  exact (Json.sameMap_iff_matches _ _).mp equal.1.2

theorem same_bare (distinct : left.DistinctKeys) (equal : left.same right = true)
    (lifted : Bool) : (left.bare lifted).same (right.bare lifted) = true := by
  cases lifted with
  | false => exact equal
  | true =>
      refine same_withExtensions equal ((Json.sameMap_iff_matches _ _).mpr ?_)
      exact (matches_extensions equal).erase distinct.extensions.1 discriminatorValueKey

theorem sameOption_discriminatorValue? (distinct : left.DistinctKeys)
    (equal : left.same right = true) :
    sameOption Json.same left.discriminatorValue? right.discriminatorValue? = true := by
  have matching := matches_extensions equal
  cases found : left.discriminatorValue? with
  | none =>
      have absent : right.discriminatorValue? = none :=
        matching.get?_eq_none distinct.extensions.1 found
      rw [absent]
      rfl
  | some value =>
      rcases matching.get?_eq_some found with ⟨other, lookup, same⟩
      have present : right.discriminatorValue? = some other := lookup
      rw [present]
      exact same

theorem same_withDiscriminatorValue (distinct : left.DistinctKeys)
    (equal : left.same right = true) (absent : left.discriminatorValue? = none)
    {value other : Json} (same : value.same other = true) :
    (left.withDiscriminatorValue value).same (right.withDiscriminatorValue other) = true := by
  refine same_withExtensions equal ((Json.sameMap_iff_matches _ _).mpr ?_)
  exact (matches_extensions equal).set distinct.extensions.1
    (Members.get?_eq_none_iff.mp absent) same

end Metadata

theorem sameOption_isSome {α : Type} {related : α → α → Bool} {left right : Option α}
    (equal : sameOption related left right = true) : left.isSome = right.isSome := by
  cases left <;> cases right <;> simp_all [sameOption]

namespace Schema

theorem sameOption_metadata? {left right : Schema} (equal : left.same right = true) :
    sameOption Metadata.same left.metadata? right.metadata? = true := by
  have own := ((same_iff left right).mp equal).1
  cases left <;> cases right <;>
    simp only [sameOwn, Bool.false_eq_true, Bool.and_eq_true, beq_iff_eq] at own
  case reference => rfl
  case boolean => rfl
  case primitive => exact ((PrimitiveSchema.same_iff _ _).mp own).2.2
  case map => exact own
  case array => exact own.2
  case object => exact own.2
  case composed => exact own.2

theorem sameOption_discriminatorValue? {left right : Schema} (distinct : left.DistinctKeys)
    (equal : left.same right = true) :
    sameOption Json.same left.discriminatorValue? right.discriminatorValue? = true := by
  have metadata := sameOption_metadata? equal
  simp only [discriminatorValue?]
  cases found : left.metadata? with
  | none =>
      cases other : right.metadata? with
      | none => rfl
      | some => simp [found, other, sameOption] at metadata
  | some own =>
      cases other : right.metadata? with
      | none => simp [found, other, sameOption] at metadata
      | some there =>
          rw [found, other] at metadata
          exact Metadata.sameOption_discriminatorValue? (distinct.metadata found) metadata

theorem same_bare {left right : Schema} (distinct : left.DistinctKeys)
    (equal : left.same right = true) (lifted : Bool) :
    (left.bare lifted).same (right.bare lifted) = true := by
  rw [same_iff] at equal ⊢
  rw [children_bare, children_bare]
  constructor
  · have own := equal.1
    rcases distinct with ⟨distinctOwn, _, _⟩
    cases left <;> cases right <;>
      simp only [sameOwn, Bool.false_eq_true, Bool.and_eq_true, beq_iff_eq, bare] at own ⊢
    case reference => exact own
    case boolean => exact own
    case primitive =>
      rw [PrimitiveSchema.same_iff] at own ⊢
      exact ⟨own.1, own.2.1, Metadata.same_bare distinctOwn.metadata own.2.2 lifted⟩
    case map => exact Metadata.same_bare distinctOwn own lifted
    case array => exact ⟨own.1, Metadata.same_bare distinctOwn own.2 lifted⟩
    case object => exact ⟨own.1, Metadata.same_bare distinctOwn.2 own.2 lifted⟩
    case composed => exact ⟨own.1, Metadata.same_bare distinctOwn.2 own.2 lifted⟩
  · exact equal.2

theorem forall₂_same_bareParts {left right : List Schema}
    (distinct : ∀ part ∈ left, part.DistinctKeys)
    (equal : List.Forall₂ (fun part other => part.same other = true) left right) :
    List.Forall₂ (fun part other => part.same other = true) (bareParts left)
      (bareParts right) := by
  induction equal with
  | nil => exact List.Forall₂.nil
  | @cons part other rest others same later ih =>
      have own := distinct part List.mem_cons_self
      have values := sameOption_isSome (sameOption_discriminatorValue? own same)
      rw [bareParts, bareParts, values]
      split
      · exact List.Forall₂.cons (same_bare own same true) later
      · refine List.Forall₂.cons same (ih fun part present => ?_)
        exact distinct part (List.mem_cons_of_mem _ present)

theorem sameOption_findSome? {left right : List Schema}
    (distinct : ∀ part ∈ left, part.DistinctKeys)
    (equal : List.Forall₂ (fun part other => part.same other = true) left right) :
    sameOption Json.same (left.findSome? discriminatorValue?)
      (right.findSome? discriminatorValue?) = true := by
  induction equal with
  | nil => rfl
  | @cons part other rest others same later ih =>
      have values := sameOption_discriminatorValue? (distinct part List.mem_cons_self) same
      have after := ih fun part present => distinct part (List.mem_cons_of_mem _ present)
      rw [List.findSome?_cons, List.findSome?_cons]
      cases found : part.discriminatorValue? with
      | none =>
          cases there : other.discriminatorValue? with
          | none => exact after
          | some => simp [found, there, sameOption] at values
      | some value =>
          cases there : other.discriminatorValue? with
          | none => simp [found, there, sameOption] at values
          | some => simpa [found, there] using values

end Schema

namespace ComposedSchema

variable {left right : ComposedSchema}

theorem sameOption_liftedValue? (distinct : left.metadata.DistinctKeys)
    (below : ∀ part ∈ left.allOf, part.DistinctKeys)
    (same : left.metadata.same right.metadata = true)
    (parts : List.Forall₂ (fun part other => part.same other = true) left.allOf right.allOf) :
    sameOption Json.same left.liftedValue? right.liftedValue? = true := by
  have own := sameOption_isSome (Metadata.sameOption_discriminatorValue? distinct same)
  simp only [liftedValue?, own]
  split
  · rfl
  · exact Schema.sameOption_findSome? below parts

theorem same_liftedMetadata (distinct : left.metadata.DistinctKeys)
    (same : left.metadata.same right.metadata = true)
    (values : sameOption Json.same left.liftedValue? right.liftedValue? = true) :
    left.liftedMetadata.same right.liftedMetadata = true := by
  simp only [liftedMetadata]
  cases found : left.liftedValue? with
  | none =>
      cases there : right.liftedValue? with
      | none => exact same
      | some => simp [found, there, sameOption] at values
  | some value =>
      cases there : right.liftedValue? with
      | none => simp [found, there, sameOption] at values
      | some other =>
          rw [found, there] at values
          have absent : left.metadata.discriminatorValue? = none := by
            by_contra own
            have present := Option.isSome_iff_ne_none.mpr own
            simp [liftedValue?, present] at found
          exact Metadata.same_withDiscriminatorValue distinct same absent values

end ComposedSchema

namespace Schema

/-- Equal schemas are equal after hoisting. -/
theorem same_hoisted {left right : Schema} (distinct : left.DistinctKeys)
    (equal : left.same right = true) : left.hoisted.same right.hoisted = true := by
  cases left with
  | composed left =>
      cases right with
      | composed right =>
          have below : ∀ part ∈ left.allOf, part.DistinctKeys := by
            intro part present
            rcases exists_member_children present with ⟨index, child⟩
            rcases distinct with ⟨_, _, all⟩
            exact all _ _ child
          have own : left.metadata.DistinctKeys := distinct.metadata rfl
          rcases left with ⟨allOf, anyOf, oneOf, properties, names, discriminator, metadata⟩
          simp only [hoisted, ComposedSchema.lifted, same, Bool.and_eq_true,
            sameList_iff_forall₂] at equal ⊢
          rcases equal with ⟨⟨⟨⟨⟨⟨⟨parts, anys⟩, ones⟩, count⟩, named⟩, required⟩, tag⟩, same⟩
          have values := ComposedSchema.sameOption_liftedValue? own below same parts
          refine ⟨⟨⟨⟨⟨⟨⟨?_, anys⟩, ones⟩, count⟩, named⟩, required⟩, tag⟩,
            ComposedSchema.same_liftedMetadata own same values⟩
          rw [sameOption_isSome values]
          split
          · exact forall₂_same_bareParts below parts
          · exact parts
      | _ => simp [same] at equal
  | _ => cases right <;> first | exact equal | simp [same] at equal

end Schema

end SchemaLift
