import Mathlib.Data.List.Forall2
import Mathlib.Data.List.Nodup
import SchemaLift.Flatten.Extractable
import SchemaLift.Proofs.Members.Related
import SchemaLift.Schema.Fault

/-!
# Schemas as trees

One view of all variants: a schema has children, each at an edge that says where it hangs.
Properties come first, then undeclared properties or items, then the members of `allOf`, `anyOf` and
`oneOf`.

`Schema.withChildren` puts other children at the same edges. Taking the children out and putting
them back changes nothing (`Schema.withChildren_children`), and what is put in at the edges of a
schema is what is found there afterwards (`Schema.children_withChildren`). Properties of all schemas
are proved by induction on the children (`Schema.induction`), with no case for each variant.
-/

namespace SchemaLift

/-- The places of children below a schema. -/
inductive Edge where
  | property (name : String)
  | undeclared
  | item
  /-- A member of a combination, under `allOf`, `anyOf` or `oneOf`. -/
  | member (keyword : Keyword) (index : Nat)
deriving DecidableEq, Repr

/-- The kind of position that an edge leads to. -/
def Edge.role : Edge → Role
  | .member .allOf _ => .part
  | .member _ _ => .alternative
  | .property _ | .undeclared | .item => .slot

/-- Schemas with the edges that they hang at. -/
abbrev Children := List (Edge × Schema)

namespace Children

/-! ## Children of one kind -/

/-- Properties as children. -/
def ofProperties (properties : List (String × Schema)) : Children :=
  properties.map fun property => (.property property.1, property.2)

/-- The schema of undeclared properties as a child. -/
def ofAdditional : AdditionalProperties → Children
  | .values schema => [(.undeclared, schema)]
  | .unspecified | .allowed _ => []

/-- The schema of items as a child. -/
def ofItems : Option Schema → Children
  | some schema => [(.item, schema)]
  | none => []

/-- The members under a keyword as children, counted from an index on. -/
def ofMembers (keyword : Keyword) (index : Nat) : List Schema → Children
  | [] => []
  | schema :: rest => (.member keyword index, schema) :: ofMembers keyword (index + 1) rest

/-- The children that are properties, by name. -/
def properties (children : Children) : List (String × Schema) :=
  children.filterMap fun child =>
    match child.1 with
    | .property name => some (name, child.2)
    | _ => none

/-- The children that are members under a keyword. -/
def members (keyword : Keyword) (children : Children) : List Schema :=
  children.filterMap fun child =>
    match child.1 with
    | .member found _ => if found = keyword then some child.2 else none
    | _ => none

variable (front back : Children)

@[simp]
theorem properties_append : properties (front ++ back) = properties front ++ properties back := by
  simp [properties]

@[simp]
theorem members_append (keyword : Keyword) :
    members keyword (front ++ back) = members keyword front ++ members keyword back := by
  simp [members]

@[simp]
theorem properties_ofProperties (named : List (String × Schema)) :
    properties (ofProperties named) = named := by
  simp [properties, ofProperties, List.filterMap_map]

@[simp]
theorem properties_ofAdditional (additional : AdditionalProperties) :
    properties (ofAdditional additional) = [] := by
  cases additional <;> rfl

@[simp]
theorem properties_undeclared (schema : Schema) : properties [(.undeclared, schema)] = [] :=
  rfl

@[simp]
theorem get?_undeclared (schema : Schema) :
    Members.get? .undeclared [(Edge.undeclared, schema)] = some schema :=
  rfl

@[simp]
theorem properties_ofMembers (keyword : Keyword) (index : Nat) (schemas : List Schema) :
    properties (ofMembers keyword index schemas) = [] := by
  induction schemas generalizing index with
  | nil => rfl
  | cons schema rest ih => simpa [properties, ofMembers] using ih (index + 1)

@[simp]
theorem members_ofProperties (keyword : Keyword) (named : List (String × Schema)) :
    members keyword (ofProperties named) = [] := by
  simp [members, ofProperties, List.filterMap_map]

theorem members_ofMembers (keyword other : Keyword) (index : Nat) (schemas : List Schema) :
    members keyword (ofMembers other index schemas) = if other = keyword then schemas else [] := by
  induction schemas generalizing index with
  | nil => simp [members, ofMembers]
  | cons schema rest ih =>
      have later := ih (index + 1)
      by_cases same : other = keyword
      · simp only [same, if_true] at later ⊢
        simpa [members, ofMembers] using later
      · simp only [same, if_false] at later ⊢
        simpa [members, ofMembers, same] using later

theorem get?_ofProperties (name : String) (named : List (String × Schema)) :
    Members.get? (.property name) (ofProperties named) = Members.get? name named := by
  induction named with
  | nil => rfl
  | cons property rest ih =>
      rcases property with ⟨first, schema⟩
      change Members.get? _ ((.property first, schema) :: ofProperties rest) = _
      rw [Members.get?_cons, Members.get?_cons, ih]
      simp only [Edge.property.injEq]

@[simp]
theorem get?_undeclared_ofProperties (named : List (String × Schema)) :
    Members.get? .undeclared (ofProperties named) = none := by
  simp [Members.get?_eq_none_iff, Members.keys, ofProperties]

theorem get?_ofMembers (keyword : Keyword) (index place : Nat) (schemas : List Schema) :
    Members.get? (.member keyword (index + place)) (ofMembers keyword index schemas) =
      schemas[place]? := by
  induction schemas generalizing index place with
  | nil => simp [ofMembers]
  | cons schema rest ih =>
      rw [ofMembers, Members.get?_cons]
      cases place with
      | zero => simp
      | succ place =>
          have step : index + (place + 1) = index + 1 + place := by omega
          rw [if_neg (by simp), step, ih, List.getElem?_cons_succ]

theorem get?_ofMembers_of_ne {edge : Edge} {keyword : Keyword}
    (other : ∀ index, edge ≠ .member keyword index) (index : Nat) (schemas : List Schema) :
    Members.get? edge (ofMembers keyword index schemas) = none := by
  induction schemas generalizing index with
  | nil => rfl
  | cons schema rest ih =>
      rw [ofMembers, Members.get?_cons, if_neg (Ne.symm (other index))]
      exact ih (index + 1)

/-! ## The edges of children -/

@[simp]
theorem length_ofProperties (named : List (String × Schema)) :
    (ofProperties named).length = named.length :=
  List.length_map _

@[simp]
theorem length_ofMembers (keyword : Keyword) (index : Nat) (schemas : List Schema) :
    (ofMembers keyword index schemas).length = schemas.length := by
  induction schemas generalizing index with
  | nil => rfl
  | cons schema rest ih => simp [ofMembers, ih]

theorem keys_ofProperties (named : List (String × Schema)) :
    Members.keys (ofProperties named) = (Members.keys named).map .property := by
  simp [Members.keys, ofProperties]

theorem keys_ofMembers (keyword : Keyword) (index : Nat) (schemas : List Schema) :
    Members.keys (ofMembers keyword index schemas) =
      (List.range' index schemas.length).map (.member keyword) := by
  induction schemas generalizing index with
  | nil => rfl
  | cons schema rest ih => simp [ofMembers, ih, List.range'_succ]

theorem nodup_keys_ofMembers (keyword : Keyword) (index : Nat) (schemas : List Schema) :
    (Members.keys (ofMembers keyword index schemas)).Nodup := by
  rw [keys_ofMembers]
  refine List.Nodup.map (fun left right equal => ?_) List.nodup_range'
  cases equal
  rfl

/-! ## Children at the same edges -/

theorem exists_ofProperties {named : List (String × Schema)} {below : Children}
    (same : Members.keys below = Members.keys (ofProperties named)) :
    ∃ others, below = ofProperties others ∧ Members.keys others = Members.keys named := by
  induction named generalizing below with
  | nil => exact ⟨[], by simpa [ofProperties, Members.keys] using same, rfl⟩
  | cons property rest ih =>
      rcases List.map_eq_cons_iff.mp same with ⟨⟨edge, schema⟩, later, rfl, here, after⟩
      rcases ih after with ⟨others, rfl, names⟩
      obtain rfl : edge = .property property.1 := here
      exact ⟨(property.1, schema) :: others, rfl, by simp [Members.keys] at names ⊢; exact names⟩

theorem exists_ofMembers {keyword : Keyword} {index : Nat} {schemas : List Schema}
    {below : Children}
    (same : Members.keys below = Members.keys (ofMembers keyword index schemas)) :
    ∃ others, below = ofMembers keyword index others ∧ others.length = schemas.length := by
  induction schemas generalizing below index with
  | nil => exact ⟨[], by simpa [ofMembers, Members.keys] using same, rfl⟩
  | cons first rest ih =>
      rcases List.map_eq_cons_iff.mp same with ⟨⟨edge, schema⟩, later, rfl, here, after⟩
      rcases ih after with ⟨others, rfl, count⟩
      obtain rfl : edge = .member keyword index := here
      exact ⟨schema :: others, rfl, by simp [count]⟩

theorem exists_singleton {edge : Edge} {schema : Schema} {below : Children}
    (same : Members.keys below = Members.keys [(edge, schema)]) :
    ∃ other, below = [(edge, other)] := by
  rcases List.map_eq_cons_iff.mp same with ⟨⟨found, other⟩, later, rfl, here, after⟩
  obtain rfl : found = edge := here
  obtain rfl : later = [] := List.map_eq_nil_iff.mp after
  exact ⟨other, rfl⟩

theorem exists_append {front back below : Children}
    (same : Members.keys below = Members.keys (front ++ back)) :
    ∃ first second, below = first ++ second ∧ Members.keys first = Members.keys front ∧
      Members.keys second = Members.keys back := by
  rw [Members.keys_append] at same
  rcases List.map_eq_append_iff.mp same with ⟨first, second, rfl, left, right⟩
  exact ⟨first, second, rfl, left, right⟩

/-! ## Children and what they stand for -/

theorem exists_of_mem_ofProperties {named : List (String × Schema)} {edge : Edge} {child : Schema}
    (present : (edge, child) ∈ ofProperties named) :
    ∃ name, edge = .property name ∧ (name, child) ∈ named := by
  rcases List.mem_map.mp present with ⟨⟨name, schema⟩, inside, same⟩
  cases same
  exact ⟨name, rfl, inside⟩

theorem mem_of_mem_ofMembers {keyword : Keyword} {index : Nat} {schemas : List Schema} {edge : Edge}
    {child : Schema} (present : (edge, child) ∈ ofMembers keyword index schemas) :
    (∃ place, edge = .member keyword place) ∧ child ∈ schemas := by
  induction schemas generalizing index with
  | nil => simp [ofMembers] at present
  | cons schema rest ih =>
      rcases List.mem_cons.mp present with same | later
      · cases same
        exact ⟨⟨index, rfl⟩, List.mem_cons_self⟩
      · exact (ih later).imp_right (List.mem_cons_of_mem _)

theorem mem_members_iff {keyword : Keyword} {children : Children} {schema : Schema} :
    schema ∈ children.members keyword ↔ ∃ index, (.member keyword index, schema) ∈ children := by
  rw [members, List.mem_filterMap]
  constructor
  · rintro ⟨⟨edge, child⟩, present, found⟩
    cases edge with
    | member other index =>
        by_cases same : other = keyword
        · simp only [same, if_true, Option.some.injEq] at found
          exact ⟨index, same ▸ found ▸ present⟩
        · simp [same] at found
    | property => simp at found
    | undeclared => simp at found
    | item => simp at found
  · rintro ⟨index, present⟩
    exact ⟨_, present, by simp⟩

theorem members_eq_nil_iff {keyword : Keyword} {children : Children} :
    children.members keyword = [] ↔ ∀ index, .member keyword index ∉ Members.keys children := by
  simp only [List.eq_nil_iff_forall_not_mem, mem_members_iff, Members.mem_keys_iff]
  exact ⟨fun none index ⟨schema, present⟩ => none schema ⟨index, present⟩,
    fun none schema ⟨index, present⟩ => none index ⟨schema, present⟩⟩

theorem properties_eq_nil_iff {children : Children} :
    children.properties = [] ↔ ∀ name, .property name ∉ Members.keys children := by
  induction children with
  | nil => simp [properties]
  | cons child rest ih =>
      rcases child with ⟨edge, schema⟩
      cases edge with
      | property name =>
          simp only [properties, List.filterMap_cons, Members.keys_cons, List.mem_cons,
            reduceCtorEq, false_iff, not_forall, not_not]
          exact ⟨name, Or.inl rfl⟩
      | _ => simpa [properties] using ih

end Children

namespace Schema

/-- The schemas directly below a schema. -/
def children : Schema → Children
  | .reference _ | .boolean _ | .primitive _ => []
  | .array shape => .ofItems shape.items
  | .map shape => [(.undeclared, shape.value)]
  | .object shape => .ofProperties shape.properties ++ .ofAdditional shape.additional
  | .composed shape =>
    .ofProperties shape.properties ++
      (.ofMembers .allOf 0 shape.allOf ++
        (.ofMembers .anyOf 0 shape.anyOf ++ .ofMembers .oneOf 0 shape.oneOf))

/-- The schema with other children at its edges. -/
def withChildren (below : Children) : Schema → Schema
  | .reference target => .reference target
  | .boolean allowed => .boolean allowed
  | .primitive leaf => .primitive leaf
  | .array shape => .array { shape with items := Members.get? .item below }
  | .map shape => .map { shape with value := (Members.get? .undeclared below).getD shape.value }
  | .object shape =>
    .object
      { shape with
        properties := below.properties
        additional :=
          match Members.get? .undeclared below with
          | some schema => .values schema
          | none => shape.additional }
  | .composed shape =>
    .composed
      { shape with
        allOf := below.members .allOf
        anyOf := below.members .anyOf
        oneOf := below.members .oneOf
        properties := below.properties }

theorem exists_eq_reference {schema : Schema} (refers : schema.isReference = true) :
    ∃ target, schema = .reference target := by
  cases schema with
  | reference target => exact ⟨target, rfl⟩
  | _ => contradiction

@[simp]
theorem isReference_withChildren (schema : Schema) (below : Children) :
    (schema.withChildren below).isReference = schema.isReference := by
  cases schema <;> rfl

/-- Children that are put back where they were leave the schema as it was. -/
@[simp]
theorem withChildren_children (schema : Schema) :
    schema.withChildren schema.children = schema := by
  cases schema with
  | array shape =>
      rcases shape with ⟨items, metadata⟩
      cases items <;> rfl
  | map shape =>
      rcases shape with ⟨value, metadata⟩
      rfl
  | object shape =>
      rcases shape with ⟨properties, required, additional, discriminator, metadata⟩
      cases additional <;>
        simp [children, withChildren, Children.ofAdditional, Members.get?_append]
  | composed shape =>
      rcases shape with ⟨allOf, anyOf, oneOf, properties, required, discriminator, metadata⟩
      simp [children, withChildren, Children.members_ofMembers]
  | reference => rfl
  | boolean => rfl
  | primitive => rfl

/-- What is put in at the edges of a schema is found there afterwards. -/
theorem children_withChildren {schema : Schema} {below : Children}
    (same : Members.keys below = Members.keys schema.children) :
    (schema.withChildren below).children = below := by
  cases schema with
  | array shape =>
      rcases shape with ⟨items, metadata⟩
      cases items with
      | none =>
          obtain rfl : below = [] := List.map_eq_nil_iff.mp same
          rfl
      | some schema =>
          rcases Children.exists_singleton same with ⟨other, rfl⟩
          rfl
  | map shape =>
      rcases Children.exists_singleton same with ⟨other, rfl⟩
      rfl
  | object shape =>
      rcases shape with ⟨properties, required, additional, discriminator, metadata⟩
      rcases Children.exists_append same with ⟨first, second, rfl, left, right⟩
      rcases Children.exists_ofProperties left with ⟨named, rfl, _⟩
      cases additional with
      | values schema =>
          rcases Children.exists_singleton right with ⟨other, rfl⟩
          simp [children, withChildren, Children.ofAdditional, Members.get?_append]
      | unspecified =>
          obtain rfl : second = [] := List.map_eq_nil_iff.mp right
          simp [children, withChildren, Children.ofAdditional]
      | allowed value =>
          obtain rfl : second = [] := List.map_eq_nil_iff.mp right
          simp [children, withChildren, Children.ofAdditional]
  | composed shape =>
      rcases Children.exists_append same with ⟨first, later, rfl, left, rest⟩
      rcases Children.exists_append rest with ⟨second, later, rfl, middle, rest⟩
      rcases Children.exists_append rest with ⟨third, fourth, rfl, next, last⟩
      rcases Children.exists_ofProperties left with ⟨named, rfl, _⟩
      rcases Children.exists_ofMembers middle with ⟨allOf, rfl, _⟩
      rcases Children.exists_ofMembers next with ⟨anyOf, rfl, _⟩
      rcases Children.exists_ofMembers last with ⟨oneOf, rfl, _⟩
      simp [children, withChildren, Children.members_ofMembers]
  | reference => exact (List.map_eq_nil_iff.mp same).symm
  | boolean => exact (List.map_eq_nil_iff.mp same).symm
  | primitive => exact (List.map_eq_nil_iff.mp same).symm

/-- Different children hang at different edges, if no property stands twice. -/
theorem distinct_children {schema : Schema} (names : Members.Distinct schema.properties) :
    Members.Distinct schema.children := by
  have named : ∀ properties : List (String × Schema), Members.Distinct properties →
      ((Members.keys properties).map Edge.property).Nodup := by
    intro properties distinct
    refine List.Nodup.map (fun left right equal => ?_) distinct
    cases equal
    rfl
  cases schema with
  | array shape =>
      rcases shape with ⟨items, metadata⟩
      cases items <;> simp [children, Children.ofItems, Members.Distinct]
  | map shape => simp [children, Members.Distinct]
  | object shape =>
      rcases shape with ⟨properties, required, additional, discriminator, metadata⟩
      have own := named properties names
      cases additional <;>
        simp [children, Children.ofAdditional, Members.Distinct, List.nodup_append, own,
          Children.keys_ofProperties]
  | composed shape =>
      have own := named shape.properties names
      have members := fun keyword => Children.nodup_keys_ofMembers keyword 0
      simp only [children, Members.Distinct, Members.keys_append, List.nodup_append',
        members, Children.keys_ofProperties, own, true_and, List.disjoint_append_right]
      simp [Children.keys_ofMembers, List.disjoint_left]
  | reference => simp [children, Members.Distinct]
  | boolean => simp [children, Members.Distinct]
  | primitive => simp [children, Members.Distinct]

theorem distinct_properties {schema : Schema} (edges : Members.Distinct schema.children) :
    Members.Distinct schema.properties := by
  have named : ∀ (properties : List (String × Schema)) (back : Children),
      Members.Distinct (Children.ofProperties properties ++ back) →
        Members.Distinct properties := by
    intro properties back distinct
    rw [Members.Distinct, Members.keys_append, Children.keys_ofProperties] at distinct
    exact (List.nodup_append.mp distinct).1.of_map _
  cases schema with
  | object => exact named _ _ edges
  | composed => exact named _ _ edges
  | reference => exact List.nodup_nil
  | array => exact List.nodup_nil
  | map => exact List.nodup_nil
  | primitive => exact List.nodup_nil
  | boolean => exact List.nodup_nil

/-! ## Induction on the children -/

theorem sizeOf_lt_of_mem_ofProperties {edge : Edge} {child : Schema}
    {named : List (String × Schema)} (below : (edge, child) ∈ Children.ofProperties named) :
    sizeOf child < sizeOf named := by
  rcases Children.exists_of_mem_ofProperties below with ⟨name, _, present⟩
  have smaller := List.sizeOf_lt_of_mem present
  simp only [Prod.mk.sizeOf_spec] at smaller
  omega

theorem sizeOf_lt_of_mem_ofMembers {edge : Edge} {child : Schema} {keyword : Keyword}
    {index : Nat} {schemas : List Schema}
    (below : (edge, child) ∈ Children.ofMembers keyword index schemas) :
    sizeOf child < sizeOf schemas :=
  List.sizeOf_lt_of_mem (Children.mem_of_mem_ofMembers below).2

theorem sizeOf_lt_of_mem_children {schema child : Schema} {edge : Edge}
    (below : (edge, child) ∈ schema.children) : sizeOf child < sizeOf schema := by
  cases schema with
  | array shape =>
      rcases shape with ⟨items, metadata⟩
      cases items with
      | none => simp [children, Children.ofItems] at below
      | some schema =>
          obtain ⟨rfl, rfl⟩ : edge = .item ∧ child = schema := by
            simpa [children, Children.ofItems] using below
          simp
          omega
  | map shape =>
      rcases shape with ⟨value, metadata⟩
      obtain ⟨rfl, rfl⟩ : edge = .undeclared ∧ child = value := by
        simpa [children] using below
      simp
      omega
  | object shape =>
      rcases shape with ⟨properties, required, additional, discriminator, metadata⟩
      simp only [children, List.mem_append] at below
      rcases below with named | other
      · have smaller := sizeOf_lt_of_mem_ofProperties named
        simp
        omega
      · cases additional with
        | values schema =>
            obtain ⟨rfl, rfl⟩ : edge = .undeclared ∧ child = schema := by
              simpa [Children.ofAdditional] using other
            simp
            omega
        | unspecified => simp [Children.ofAdditional] at other
        | allowed => simp [Children.ofAdditional] at other
  | composed shape =>
      rcases shape with ⟨allOf, anyOf, oneOf, properties, required, discriminator, metadata⟩
      simp only [children, List.mem_append] at below
      rcases below with named | part | alternative | alternative
      · have smaller := sizeOf_lt_of_mem_ofProperties named
        simp
        omega
      · have smaller := sizeOf_lt_of_mem_ofMembers part
        simp
        omega
      · have smaller := sizeOf_lt_of_mem_ofMembers alternative
        simp
        omega
      · have smaller := sizeOf_lt_of_mem_ofMembers alternative
        simp
        omega
  | reference => simp [children] at below
  | boolean => simp [children] at below
  | primitive => simp [children] at below

/-- What holds of a schema if it holds of the schemas directly below it holds of every schema. -/
@[elab_as_elim]
theorem induction {motive : Schema → Prop}
    (step : ∀ schema, (∀ edge child, (edge, child) ∈ schema.children → motive child) →
      motive schema) (schema : Schema) : motive schema :=
  step schema fun _ child below =>
    have := sizeOf_lt_of_mem_children below
    induction step child
termination_by sizeOf schema

end Schema

end SchemaLift
