import SchemaLift.Proofs.Schema.Children
import SchemaLift.Proofs.Schema.Data

/-!
# Equality of schemas

Two schemas are equal when their own data are (`Schema.sameOwn`) and their children match at every
edge (`Schema.same_iff`). Own data are everything but the child schemas: which variant it is, the
names of properties and the numbers of members included.

Equality is an equivalence on schemas in which no map has a key twice, at any depth
(`Schema.DistinctKeys`).
-/

namespace SchemaLift

/-- Whether the same is said about undeclared properties, up to their schema. -/
def AdditionalProperties.sameKind : AdditionalProperties → AdditionalProperties → Bool
  | .unspecified, .unspecified => true
  | .allowed left, .allowed right => left == right
  | .values _, .values _ => true
  | _, _ => false

namespace Schema

/-- Equality of everything but the child schemas. -/
def sameOwn : Schema → Schema → Bool
  | .reference left, .reference right => left.same right
  | .object left, .object right =>
    Members.same (fun _ _ => true) left.properties right.properties &&
      left.required == right.required && left.additional.sameKind right.additional &&
      sameOption Discriminator.same left.discriminator right.discriminator &&
      left.metadata.same right.metadata
  | .array left, .array right =>
    left.items.isSome == right.items.isSome && left.metadata.same right.metadata
  | .map left, .map right => left.metadata.same right.metadata
  | .composed left, .composed right =>
    left.allOf.length == right.allOf.length && left.anyOf.length == right.anyOf.length &&
      left.oneOf.length == right.oneOf.length &&
      Members.same (fun _ _ => true) left.properties right.properties &&
      left.required == right.required &&
      sameOption Discriminator.same left.discriminator right.discriminator &&
      left.metadata.same right.metadata
  | .primitive left, .primitive right => left.same right
  | .boolean left, .boolean right => left == right
  | _, _ => false

end Schema

/-! ## Children that are found at the same edges -/

namespace Children

/-- Each child on the left has a related one at its edge on the right. -/
def Covered (related : Schema → Schema → Prop) (left right : Children) : Prop :=
  ∀ edge child, (edge, child) ∈ left →
    ∃ other, Members.get? edge right = some other ∧ related child other

variable {related : Schema → Schema → Prop} {right : Children}

@[simp]
theorem covered_nil : Covered related [] right := by
  intro edge child present
  simp at present

@[simp]
theorem covered_append {front back : Children} :
    Covered related (front ++ back) right ↔
      Covered related front right ∧ Covered related back right := by
  simp only [Covered, List.mem_append, or_imp, forall_and]

theorem covered_cons {edge : Edge} {child : Schema} {rest : Children} :
    Covered related ((edge, child) :: rest) right ↔
      (∃ other, Members.get? edge right = some other ∧ related child other) ∧
        Covered related rest right := by
  simp [Covered, or_imp, forall_and]

theorem covered_ofProperties {named others : List (String × Schema)}
    (lookup : ∀ name, Members.get? (.property name) right = Members.get? name others) :
    Covered related (.ofProperties named) right ↔
      ∀ name child, (name, child) ∈ named →
        ∃ other, Members.get? name others = some other ∧ related child other := by
  constructor
  · intro covered name child present
    have found := covered (.property name) child (List.mem_map.mpr ⟨_, present, rfl⟩)
    rwa [lookup] at found
  · intro all edge child present
    rcases List.mem_map.mp present with ⟨⟨name, schema⟩, inside, equal⟩
    cases equal
    rw [lookup]
    exact all name schema inside

theorem covered_ofMembers {keyword : Keyword} {index : Nat} {schemas others : List Schema}
    (lookup : ∀ place, Members.get? (.member keyword (index + place)) right = others[place]?)
    (count : schemas.length = others.length) :
    Covered related (.ofMembers keyword index schemas) right ↔
      List.Forall₂ related schemas others := by
  induction schemas generalizing index others with
  | nil =>
      obtain rfl := List.length_eq_zero_iff.mp count.symm
      simp [ofMembers]
  | cons schema rest ih =>
      cases others with
      | nil => simp at count
      | cons other later =>
          have here : Members.get? (.member keyword index) right = some other := by
            simpa using lookup 0
          have below : ∀ place,
              Members.get? (.member keyword (index + 1 + place)) right = later[place]? := by
            intro place
            have step : index + 1 + place = index + (place + 1) := by omega
            rw [step, lookup, List.getElem?_cons_succ]
          rw [ofMembers, covered_cons, here, List.forall₂_cons, ih below (by simpa using count)]
          simp

end Children

namespace Schema

/-! ## Lookup of children -/

@[simp]
theorem get?_property_children (schema : Schema) (name : String) :
    Members.get? (.property name) schema.children = Members.get? name schema.properties := by
  cases schema with
  | array shape =>
      rcases shape with ⟨items, metadata⟩
      cases items <;> rfl
  | object shape =>
      rcases shape with ⟨properties, required, additional, discriminator, metadata⟩
      cases additional <;>
        simp [children, Children.ofAdditional, Members.get?_append, Children.get?_ofProperties,
          Schema.properties, Members.get?_cons]
  | composed shape =>
      have absent : ∀ keyword schemas,
          Members.get? (.property name) (Children.ofMembers keyword 0 schemas) = none :=
        fun keyword => Children.get?_ofMembers_of_ne (by simp) 0
      simp [children, Members.get?_append, Children.get?_ofProperties, absent,
        Schema.properties]
  | reference => rfl
  | map => rfl
  | primitive => rfl
  | boolean => rfl

@[simp]
theorem get?_undeclared_children_object (shape : ObjectSchema) :
    Members.get? .undeclared (children (.object shape)) =
      Members.get? .undeclared (Children.ofAdditional shape.additional) := by
  simp [children, Members.get?_append]

@[simp]
theorem get?_member_children_composed (shape : ComposedSchema) (keyword : Keyword) (place : Nat) :
    Members.get? (.member keyword place) (children (.composed shape)) =
      match keyword with
      | .allOf => shape.allOf[place]?
      | .anyOf => shape.anyOf[place]?
      | .oneOf => shape.oneOf[place]?
      | _ => none := by
  have named : Members.get? (.member keyword place) (Children.ofProperties shape.properties) =
      none := by
    simp [Members.get?_eq_none_iff, Members.keys, Children.ofProperties]
  have own : ∀ schemas : List Schema,
      Members.get? (.member keyword place) (Children.ofMembers keyword 0 schemas) =
        schemas[place]? := by
    intro schemas
    simpa using Children.get?_ofMembers keyword 0 place schemas
  have other : ∀ {found : Keyword} (schemas : List Schema), keyword ≠ found →
      Members.get? (.member keyword place) (Children.ofMembers found 0 schemas) = none := by
    intro found schemas differs
    exact Children.get?_ofMembers_of_ne (by simp [differs]) 0 schemas
  cases keyword <;> simp [children, Members.get?_append, named, own, other]

/-! ## Equality node by node -/

theorem sameProperties_iff (left right : List (String × Schema)) :
    sameProperties left right = true ↔
      ∀ name child, (name, child) ∈ left →
        ∃ other, Members.get? name right = some other ∧ child.same other = true := by
  induction left with
  | nil => simp [sameProperties]
  | cons property rest ih =>
      rcases property with ⟨first, schema⟩
      simp only [sameProperties, Bool.and_eq_true, ih, List.mem_cons, Prod.mk.injEq]
      constructor
      · rintro ⟨here, later⟩ name child (⟨rfl, rfl⟩ | present)
        · split at here
          · next other lookup => exact ⟨other, lookup, here⟩
          · contradiction
        · exact later name child present
      · intro all
        rcases all first schema (Or.inl ⟨rfl, rfl⟩) with ⟨other, lookup, equal⟩
        exact ⟨by simp [lookup, equal], fun name child present => all name child (Or.inr present)⟩

theorem sameList_iff_forall₂ (left right : List Schema) :
    sameList left right = true ↔
      List.Forall₂ (fun child other => child.same other = true) left right := by
  induction left generalizing right with
  | nil => cases right <;> simp [sameList]
  | cons child rest ih =>
      cases right with
      | nil => simp [sameList]
      | cons other others => simp [sameList, ih]

/-- Maps of properties are equal when they have the same names and the schemas are equal by name. -/
theorem sameProperties_iff_sameNames (left right : List (String × Schema)) :
    (left.length == right.length && sameProperties left right) = true ↔
      Members.same (fun _ _ => true) left right = true ∧
        ∀ name child, (name, child) ∈ left →
          ∃ other, Members.get? name right = some other ∧ child.same other = true := by
  rw [Bool.and_eq_true, sameProperties_iff, Members.same_iff_matches, beq_iff_eq]
  constructor
  · rintro ⟨count, all⟩
    refine ⟨⟨count, fun name child present => ?_⟩, all⟩
    rcases all name child present with ⟨other, lookup, _⟩
    exact ⟨other, lookup, rfl⟩
  · rintro ⟨matching, all⟩
    exact ⟨matching.1, all⟩

theorem sameAdditional_iff (left : AdditionalProperties) (right : ObjectSchema) :
    sameAdditional left right.additional = true ↔
      left.sameKind right.additional = true ∧
        Children.Covered (fun child other => child.same other = true) (.ofAdditional left)
          (children (.object right)) := by
  rcases right with ⟨properties, required, additional, discriminator, metadata⟩
  cases left <;> cases additional <;>
    simp [sameAdditional, AdditionalProperties.sameKind, Children.ofAdditional,
      Children.covered_cons]

theorem sameMembers_iff (keyword : Keyword) (left : List Schema) {right : List Schema}
    {below : Children}
    (lookup : ∀ place, Members.get? (.member keyword place) below = right[place]?) :
    sameList left right = true ↔
      (left.length == right.length) = true ∧
        Children.Covered (fun child other => child.same other = true) (.ofMembers keyword 0 left)
          below := by
  rw [sameList_iff_forall₂, beq_iff_eq]
  constructor
  · intro all
    have count := all.length_eq
    exact ⟨count, (Children.covered_ofMembers (by simpa using lookup) count).mpr all⟩
  · rintro ⟨count, covered⟩
    exact (Children.covered_ofMembers (by simpa using lookup) count).mp covered

/-- Schemas are equal when their own data are, and their children at every edge. -/
theorem same_iff (left right : Schema) :
    left.same right = true ↔
      left.sameOwn right = true ∧
        Children.Covered (fun child other => child.same other = true) left.children
          right.children := by
  cases left with
  | array shape =>
      rcases shape with ⟨items, metadata⟩
      cases right <;> simp only [same, sameOwn, Bool.false_eq_true, false_and]
      next other =>
      rcases other with ⟨others, otherMetadata⟩
      cases items <;> cases others <;>
        simp [sameItems, children, Children.ofItems, Children.covered_cons, Members.get?_cons,
          and_comm]
  | map shape =>
      rcases shape with ⟨value, metadata⟩
      cases right <;> simp only [same, sameOwn, Bool.false_eq_true, false_and]
      simp [children, Children.covered_cons, and_comm]
  | object shape =>
      rcases shape with ⟨properties, required, additional, discriminator, metadata⟩
      cases right <;> simp only [same, sameOwn, Bool.false_eq_true, false_and]
      next other =>
      rw [children, Children.covered_append,
        Children.covered_ofProperties (get?_property_children (.object other))]
      have named := sameProperties_iff_sameNames properties other.properties
      have undeclared := sameAdditional_iff additional other
      simp only [Bool.and_eq_true] at named ⊢
      rw [named, undeclared]
      constructor
      · rintro ⟨⟨⟨⟨⟨names, values⟩, required⟩, kind, value⟩, discriminator⟩, metadata⟩
        exact ⟨⟨⟨⟨⟨names, required⟩, kind⟩, discriminator⟩, metadata⟩, values, value⟩
      · rintro ⟨⟨⟨⟨⟨names, required⟩, kind⟩, discriminator⟩, metadata⟩, values, value⟩
        exact ⟨⟨⟨⟨⟨names, values⟩, required⟩, kind, value⟩, discriminator⟩, metadata⟩
  | composed shape =>
      rcases shape with ⟨allOf, anyOf, oneOf, properties, required, discriminator, metadata⟩
      cases right <;> simp only [same, sameOwn, Bool.false_eq_true, false_and]
      next other =>
      rw [children, Children.covered_append, Children.covered_append, Children.covered_append,
        Children.covered_ofProperties (get?_property_children (.composed other))]
      have named := sameProperties_iff_sameNames properties other.properties
      have parts := sameMembers_iff .allOf allOf
        (get?_member_children_composed other .allOf)
      have anyAlternatives := sameMembers_iff .anyOf anyOf
        (get?_member_children_composed other .anyOf)
      have oneAlternatives := sameMembers_iff .oneOf oneOf
        (get?_member_children_composed other .oneOf)
      simp only [Bool.and_eq_true] at named ⊢
      rw [parts, anyAlternatives, oneAlternatives, and_assoc (c := sameProperties _ _ = true),
        named]
      constructor
      · rintro ⟨⟨⟨⟨⟨⟨⟨parts, part⟩, anys, any⟩, ones, one⟩, names, values⟩, required⟩,
          discriminator⟩, metadata⟩
        exact ⟨⟨⟨⟨⟨⟨⟨parts, anys⟩, ones⟩, names⟩, required⟩, discriminator⟩, metadata⟩, values,
          part, any, one⟩
      · rintro ⟨⟨⟨⟨⟨⟨⟨parts, anys⟩, ones⟩, names⟩, required⟩, discriminator⟩, metadata⟩, values,
          part, any, one⟩
        exact ⟨⟨⟨⟨⟨⟨⟨parts, part⟩, anys, any⟩, ones, one⟩, names, values⟩, required⟩,
          discriminator⟩, metadata⟩
  | reference target =>
      cases right <;> simp [same, sameOwn, children]
  | boolean => 
      cases right <;> simp [same, sameOwn, children]
  | primitive => 
      cases right <;> simp [same, sameOwn, children]

/-! ## Equal own data -/

theorem covered_of_sameOwn {left right : Schema} (own : left.sameOwn right = true) :
    Children.Covered (fun _ _ => True) left.children right.children := by
  have all : ∀ {schemas others : List Schema}, schemas.length = others.length →
      List.Forall₂ (fun _ _ => True) schemas others := by
    intro schemas others count
    exact List.forall₂_iff_zip.mpr ⟨count, fun _ => trivial⟩
  cases left with
  | array shape =>
      rcases shape with ⟨items, metadata⟩
      cases right <;> simp only [sameOwn, Bool.false_eq_true] at own
      next other =>
      rcases other with ⟨others, otherMetadata⟩
      cases items <;> cases others <;>
        simp_all [children, Children.ofItems, Children.covered_cons, Members.get?_cons]
  | map shape =>
      cases right <;> simp only [sameOwn, Bool.false_eq_true] at own
      simp [children, Children.covered_cons]
  | object shape =>
      rcases shape with ⟨properties, required, additional, discriminator, metadata⟩
      cases right <;> simp only [sameOwn, Bool.false_eq_true, Bool.and_eq_true] at own
      next other =>
      rcases own with ⟨⟨⟨⟨names, _⟩, kind⟩, _⟩, _⟩
      rw [children, Children.covered_append,
        Children.covered_ofProperties (get?_property_children (.object other))]
      constructor
      · intro name child present
        have matching := (Members.same_iff_matches _ _ _).mp names
        rcases matching.2 name child present with ⟨value, lookup, _⟩
        exact ⟨value, lookup, trivial⟩
      · obtain ⟨others, otherRequired, otherAdditional, otherDiscriminator, otherMetadata⟩ := other
        cases additional <;> cases otherAdditional <;>
          simp_all [AdditionalProperties.sameKind, Children.ofAdditional, Children.covered_cons]
  | composed shape =>
      rcases shape with ⟨allOf, anyOf, oneOf, properties, required, discriminator, metadata⟩
      cases right <;> simp only [sameOwn, Bool.false_eq_true, Bool.and_eq_true, beq_iff_eq] at own
      next other =>
      rcases own with ⟨⟨⟨⟨⟨⟨parts, anys⟩, ones⟩, names⟩, _⟩, _⟩, _⟩
      rw [children, Children.covered_append, Children.covered_append, Children.covered_append,
        Children.covered_ofProperties (get?_property_children (.composed other)),
        Children.covered_ofMembers (by simp) parts,
        Children.covered_ofMembers (by simp) anys,
        Children.covered_ofMembers (by simp) ones]
      refine ⟨fun name child present => ?_, all parts, all anys, all ones⟩
      obtain ⟨value, lookup, _⟩ := ((Members.same_iff_matches _ _ _).mp names).2 name child present
      exact ⟨value, lookup, trivial⟩
  | reference => simp [children]
  | boolean => simp [children]
  | primitive => simp [children]

theorem length_children_of_sameOwn {left right : Schema} (own : left.sameOwn right = true) :
    left.children.length = right.children.length := by
  cases left <;> cases right <;>
    simp only [sameOwn, Bool.false_eq_true, Bool.and_eq_true, beq_iff_eq] at own
  case reference => rfl
  case boolean => rfl
  case primitive => rfl
  case map => rfl
  case array shape other =>
    rcases shape with ⟨items, metadata⟩
    rcases other with ⟨others, otherMetadata⟩
    cases items <;> cases others <;> simp_all [children, Children.ofItems]
  case object shape other =>
    have count := ((Members.same_iff_matches _ _ _).mp own.1.1.1.1).1
    have kind := own.1.1.2
    cases found : shape.additional <;> cases other : other.additional <;>
      simp_all [children, AdditionalProperties.sameKind, Children.ofAdditional]
  case composed shape other =>
    have count := ((Members.same_iff_matches _ _ _).mp own.1.1.1.2).1
    simp [children, count, own.1.1.1.1]

/-- Schemas with equal own data have children at the same edges. -/
theorem matches_of_sameOwn {left right : Schema} (own : left.sameOwn right = true) :
    Members.Matches (fun _ _ => True) left.children right.children :=
  ⟨length_children_of_sameOwn own, covered_of_sameOwn own⟩

/-- Schemas are equal when their own data are and their children match. -/
theorem same_iff_matches (left right : Schema) :
    left.same right = true ↔
      left.sameOwn right = true ∧
        Members.Matches (fun child other => child.same other = true) left.children
          right.children := by
  rw [same_iff]
  exact and_congr_right fun own =>
    ⟨fun covered => ⟨length_children_of_sameOwn own, covered⟩, And.right⟩

/-! ## The laws of an equivalence -/

/-- No map that a schema itself holds has a key twice; its properties are left out. -/
def DistinctOwn : Schema → Prop
  | .reference target => Json.DistinctMap target.siblings
  | .object shape =>
    (∀ discriminator, shape.discriminator = some discriminator → discriminator.DistinctKeys) ∧
      shape.metadata.DistinctKeys
  | .array shape => shape.metadata.DistinctKeys
  | .map shape => shape.metadata.DistinctKeys
  | .composed shape =>
    (∀ discriminator, shape.discriminator = some discriminator → discriminator.DistinctKeys) ∧
      shape.metadata.DistinctKeys
  | .primitive leaf => leaf.DistinctKeys
  | .boolean _ => True

/-- No map in a schema or in a schema below it has a key twice. -/
inductive DistinctKeys : Schema → Prop
  | intro {schema : Schema} (own : schema.DistinctOwn)
      (names : Members.Distinct schema.properties)
      (below : ∀ edge child, (edge, child) ∈ schema.children → DistinctKeys child) :
      DistinctKeys schema

theorem distinctKeys_of_children_eq_nil {schema : Schema} (own : schema.DistinctOwn)
    (none : schema.children = []) (names : schema.properties = []) : schema.DistinctKeys := by
  constructor
  · exact own
  · rw [names]
    exact List.nodup_nil
  · intro edge child below
    rw [none] at below
    cases below

theorem distinctKeys_object {shape : ObjectSchema} (own : (object shape).DistinctOwn)
    (names : Members.Distinct shape.properties)
    (properties : ∀ name child, (name, child) ∈ shape.properties → child.DistinctKeys)
    (additional : ∀ child, shape.additional = .values child → child.DistinctKeys) :
    (object shape).DistinctKeys := by
  apply DistinctKeys.intro own names
  intro edge child below
  rcases List.mem_append.mp below with named | undeclared
  · rcases Children.exists_of_mem_ofProperties named with ⟨name, _, present⟩
    exact properties name child present
  · cases found : shape.additional with
    | values schema =>
        rw [found] at undeclared
        cases List.mem_singleton.mp undeclared
        exact additional _ found
    | _ =>
        rw [found] at undeclared
        cases undeclared

theorem distinctKeys_composed {shape : ComposedSchema} (own : (composed shape).DistinctOwn)
    (names : Members.Distinct shape.properties)
    (properties : ∀ name child, (name, child) ∈ shape.properties → child.DistinctKeys)
    (allOf : ∀ child ∈ shape.allOf, child.DistinctKeys)
    (anyOf : ∀ child ∈ shape.anyOf, child.DistinctKeys)
    (oneOf : ∀ child ∈ shape.oneOf, child.DistinctKeys) : (composed shape).DistinctKeys := by
  apply DistinctKeys.intro own names
  intro edge child below
  simp only [children, List.mem_append] at below
  rcases below with named | part | any | one
  · rcases Children.exists_of_mem_ofProperties named with ⟨name, _, present⟩
    exact properties name child present
  · exact allOf child (Children.mem_of_mem_ofMembers part).2
  · exact anyOf child (Children.mem_of_mem_ofMembers any).2
  · exact oneOf child (Children.mem_of_mem_ofMembers one).2

theorem sameOwn_refl {schema : Schema} (own : schema.DistinctOwn)
    (names : Members.Distinct schema.properties) : schema.sameOwn schema = true := by
  have named : ∀ properties : List (String × Schema), Members.Distinct properties →
      Members.same (fun _ _ => true) properties properties = true := by
    intro properties distinct
    exact (Members.same_iff_matches _ _ _).mpr (Members.Matches.refl distinct fun _ _ _ => rfl)
  cases schema with
  | reference target => exact Reference.same_refl own
  | object shape =>
      rcases shape with ⟨properties, required, additional, discriminator, metadata⟩
      have kind : additional.sameKind additional = true := by
        cases additional <;> simp [AdditionalProperties.sameKind]
      simp only [sameOwn, named properties names, kind, beq_self_eq_true, Bool.true_and,
        Bool.and_eq_true]
      exact ⟨sameOption_refl fun found value => Discriminator.same_refl (own.1 found value),
        Metadata.same_refl own.2⟩
  | array shape =>
      simp only [sameOwn, beq_self_eq_true, Bool.true_and]
      exact Metadata.same_refl own
  | map shape => exact Metadata.same_refl own
  | composed shape =>
      simp only [sameOwn, named shape.properties names, beq_self_eq_true, Bool.true_and,
        Bool.and_eq_true]
      exact ⟨sameOption_refl fun found value => Discriminator.same_refl (own.1 found value),
        Metadata.same_refl own.2⟩
  | primitive leaf => exact PrimitiveSchema.same_refl own
  | boolean allowed => exact beq_self_eq_true allowed

theorem sameOwn_symm {left right : Schema} (own : left.DistinctOwn)
    (names : Members.Distinct left.properties) (equal : left.sameOwn right = true) :
    right.sameOwn left = true := by
  have named : ∀ properties others : List (String × Schema), Members.Distinct properties →
      Members.same (fun _ _ => true) properties others = true →
      Members.same (fun _ _ => true) others properties = true := by
    intro properties others distinct same
    rw [Members.same_iff_matches] at same ⊢
    exact same.symm distinct fun _ _ _ _ _ => rfl
  cases left <;> cases right <;>
    simp only [sameOwn, Bool.false_eq_true, Bool.and_eq_true, beq_iff_eq] at equal ⊢
  case reference => exact Reference.same_symm own equal
  case boolean => exact equal.symm
  case primitive => exact PrimitiveSchema.same_symm own equal
  case map => exact Metadata.same_symm own equal
  case array => exact ⟨equal.1.symm, Metadata.same_symm own equal.2⟩
  case object shape other =>
    rcases equal with ⟨⟨⟨⟨properties, required⟩, kind⟩, discriminator⟩, metadata⟩
    have flipped : other.additional.sameKind shape.additional = true := by
      cases found : shape.additional <;> cases there : other.additional <;>
        simp_all [AdditionalProperties.sameKind]
    exact ⟨⟨⟨⟨named _ _ names properties, required.symm⟩, flipped⟩,
      sameOption_symm discriminator fun value _ found =>
        Discriminator.same_symm (own.1 value found)⟩,
      Metadata.same_symm own.2 metadata⟩
  case composed =>
    rcases equal with ⟨⟨⟨⟨⟨⟨parts, anys⟩, ones⟩, properties⟩, required⟩, discriminator⟩, metadata⟩
    exact ⟨⟨⟨⟨⟨⟨parts.symm, anys.symm⟩, ones.symm⟩, named _ _ names properties⟩, required.symm⟩,
      sameOption_symm discriminator fun value _ found =>
        Discriminator.same_symm (own.1 value found)⟩,
      Metadata.same_symm own.2 metadata⟩

theorem sameOwn_trans {left middle right : Schema} (first : left.sameOwn middle = true)
    (second : middle.sameOwn right = true) : left.sameOwn right = true := by
  have named : ∀ {properties others lasts : List (String × Schema)},
      Members.same (fun _ _ => true) properties others = true →
      Members.same (fun _ _ => true) others lasts = true →
      Members.same (fun _ _ => true) properties lasts = true := by
    intro properties others lasts left right
    rw [Members.same_iff_matches] at left right ⊢
    exact left.trans right fun _ _ _ _ _ _ _ => rfl
  cases left <;> cases middle <;>
    simp only [sameOwn, Bool.false_eq_true, Bool.and_eq_true, beq_iff_eq] at first <;>
    cases right <;>
    simp only [sameOwn, Bool.false_eq_true, Bool.and_eq_true, beq_iff_eq] at second ⊢
  case reference => exact Reference.same_trans first second
  case boolean => exact first.trans second
  case primitive => exact PrimitiveSchema.same_trans first second
  case map => exact Metadata.same_trans first second
  case array => exact ⟨first.1.trans second.1, Metadata.same_trans first.2 second.2⟩
  case object shape other last =>
    rcases first with ⟨⟨⟨⟨properties, required⟩, kind⟩, discriminator⟩, metadata⟩
    obtain ⟨⟨⟨⟨nextProperties, nextRequired⟩, nextKind⟩, nextDiscriminator⟩, nextMetadata⟩ := second
    have composed : shape.additional.sameKind last.additional = true := by
      cases found : shape.additional <;> cases there : other.additional <;>
        cases after : last.additional <;> simp_all [AdditionalProperties.sameKind]
    exact ⟨⟨⟨⟨named properties nextProperties, required.trans nextRequired⟩, composed⟩,
      sameOption_trans discriminator nextDiscriminator fun _ _ _ => Discriminator.same_trans⟩,
      Metadata.same_trans metadata nextMetadata⟩
  case composed =>
    rcases first with ⟨⟨⟨⟨⟨⟨parts, anys⟩, ones⟩, properties⟩, required⟩, discriminator⟩, metadata⟩
    obtain ⟨⟨⟨⟨⟨⟨nextParts, nextAnys⟩, nextOnes⟩, nextProperties⟩, nextRequired⟩,
      nextDiscriminator⟩, nextMetadata⟩ := second
    exact ⟨⟨⟨⟨⟨⟨parts.trans nextParts, anys.trans nextAnys⟩, ones.trans nextOnes⟩,
      named properties nextProperties⟩, required.trans nextRequired⟩,
      sameOption_trans discriminator nextDiscriminator fun _ _ _ => Discriminator.same_trans⟩,
      Metadata.same_trans metadata nextMetadata⟩

theorem same_refl {schema : Schema} (distinct : schema.DistinctKeys) :
    schema.same schema = true := by
  induction schema using induction with
  | step schema ih =>
      rcases distinct with ⟨own, names, below⟩
      rw [same_iff_matches]
      exact ⟨sameOwn_refl own names, Members.Matches.refl (distinct_children names)
        fun edge child present => ih edge child present (below edge child present)⟩

theorem same_symm {left right : Schema} (distinct : left.DistinctKeys)
    (equal : left.same right = true) : right.same left = true := by
  induction left using induction generalizing right with
  | step left ih =>
      rcases distinct with ⟨own, names, below⟩
      rw [same_iff_matches] at equal ⊢
      exact ⟨sameOwn_symm own names equal.1, equal.2.symm (distinct_children names)
        fun edge child other present => ih edge child present (below edge child present)⟩

theorem same_trans {left middle right : Schema} (first : left.same middle = true)
    (second : middle.same right = true) : left.same right = true := by
  induction left using induction generalizing middle right with
  | step left ih =>
      rw [same_iff_matches] at first second ⊢
      exact ⟨sameOwn_trans first.1 second.1, first.2.trans second.2
        fun edge child _ _ present => ih edge child present⟩

/-- Other children at the same edges leave the own data as they are. -/
theorem sameOwn_withChildren {schema : Schema} (own : schema.DistinctOwn)
    (names : Members.Distinct schema.properties) {below : Children}
    (edges : Members.keys below = Members.keys schema.children) :
    schema.sameOwn (schema.withChildren below) = true := by
  have whole := sameOwn_refl own names
  have named : ∀ properties others : List (String × Schema),
      Members.keys others = Members.keys properties →
        Members.same (fun _ _ => true) properties others = true := by
    intro properties others same
    rw [Members.same_iff_matches]
    exact (Members.Matches.of_keys_eq same).mono fun _ _ _ _ _ => rfl
  cases schema with
  | array shape =>
      rcases shape with ⟨items, metadata⟩
      cases items with
      | none =>
          obtain rfl : below = [] := List.map_eq_nil_iff.mp edges
          exact whole
      | some schema =>
          rcases Children.exists_singleton edges with ⟨other, rfl⟩
          exact whole
  | object shape =>
      rcases shape with ⟨properties, required, additional, discriminator, metadata⟩
      rcases Children.exists_append edges with ⟨first, second, rfl, left, right⟩
      rcases Children.exists_ofProperties left with ⟨others, rfl, keys⟩
      simp only [sameOwn, Bool.and_eq_true] at whole
      rcases whole with ⟨⟨⟨⟨_, required⟩, kind⟩, discriminator⟩, metadata⟩
      cases additional with
      | values schema =>
          rcases Children.exists_singleton right with ⟨other, rfl⟩
          simp [sameOwn, withChildren, Members.get?_append, AdditionalProperties.sameKind,
            named _ _ keys, discriminator, metadata]
      | unspecified =>
          obtain rfl : second = [] := List.map_eq_nil_iff.mp right
          simp [sameOwn, withChildren, AdditionalProperties.sameKind, named _ _ keys, discriminator,
            metadata]
      | allowed value =>
          obtain rfl : second = [] := List.map_eq_nil_iff.mp right
          simp [sameOwn, withChildren, AdditionalProperties.sameKind, named _ _ keys, discriminator,
            metadata]
  | composed shape =>
      rcases shape with ⟨allOf, anyOf, oneOf, properties, required, discriminator, metadata⟩
      rcases Children.exists_append edges with ⟨first, later, rfl, left, rest⟩
      rcases Children.exists_append rest with ⟨second, later, rfl, middle, rest⟩
      rcases Children.exists_append rest with ⟨third, fourth, rfl, next, last⟩
      rcases Children.exists_ofProperties left with ⟨others, rfl, keys⟩
      rcases Children.exists_ofMembers middle with ⟨parts, rfl, partCount⟩
      rcases Children.exists_ofMembers next with ⟨anys, rfl, anyCount⟩
      rcases Children.exists_ofMembers last with ⟨ones, rfl, oneCount⟩
      simp only [sameOwn, Bool.and_eq_true] at whole
      rcases whole with ⟨⟨⟨_, required⟩, discriminator⟩, metadata⟩
      simp [sameOwn, withChildren, Children.members_ofMembers, named _ _ keys, partCount, anyCount,
        oneCount, discriminator, metadata]
  | reference => exact whole
  | map => exact whole
  | primitive => exact whole
  | boolean => exact whole

theorem isReference_of_same {left right : Schema} (equal : left.same right = true) :
    right.isReference = left.isReference := by
  cases left <;> cases right <;> first | rfl | simp [same] at equal

/-- Other children at the same edges keep keys distinct, if theirs are. -/
theorem DistinctKeys.withChildren {schema : Schema} (distinct : schema.DistinctKeys)
    {below : Children} (edges : Members.keys below = Members.keys schema.children)
    (each : ∀ edge child, (edge, child) ∈ below → child.DistinctKeys) :
    (schema.withChildren below).DistinctKeys := by
  rcases distinct with ⟨own, names, _⟩
  have children := children_withChildren edges
  refine DistinctKeys.intro ?_ (distinct_properties ?_) (by rw [children]; exact each)
  · cases schema <;> exact own
  · rw [children, Members.Distinct, edges]
    exact distinct_children names

end Schema

end SchemaLift
