import SchemaLift.Flatten.Documents
import SchemaLift.Proofs.Schema.Hoisting

/-!
# Visits as one recursion

The visit of a schema, whatever its variant, places it and visits its children after hoisting, at
their edges and in their order (`visitSchema_eq`). A discriminator value that is lifted from a
schema while it is visited might as well have been taken from it before (`visitSchema_bare`).
-/

namespace SchemaLift.Flatten

/-- The name that is derived for a child of a named schema. -/
def derivedAt (config : Config) (parent : String) : Edge → String
  | .property name => Naming.property parent name
  | .undeclared => config.mapValue parent
  | .item => config.arrayItem parent
  | .member keyword _ => Naming.members parent keyword

/-- Flatten the children of a named schema. -/
def visitChildren (config : Config) (policy : Policy) (parent : String) :
    Children → Step Children :=
  visitValues fun edge => visitSchema config policy edge.role false (derivedAt config parent edge)

theorem visitValues_append {κ α : Type} (visit : κ → α → Step α) (front back : List (κ × α)) :
    visitValues visit (front ++ back) = (do
      let front ← visitValues visit front
      let back ← visitValues visit back
      pure (front ++ back)) := by
  induction front with
  | nil => simp [visitValues]
  | cons entry rest ih =>
      rcases entry with ⟨key, value⟩
      simp [visitValues, ih]

variable (config : Config) (policy : Policy)

theorem visitSchema_bare (role : Role) (lifted : Bool) (derived : String) (schema : Schema) :
    visitSchema config policy role lifted derived schema =
      visitSchema config policy role false derived (schema.bare lifted) := by
  cases schema with
  | reference | boolean => rfl
  | primitive shape =>
      rcases shape with ⟨format, enumValues, metadata⟩
      simp only [visitSchema, Schema.bare, Metadata.bare_false]
  | array shape =>
      rcases shape with ⟨items, metadata⟩
      simp only [visitSchema, Schema.bare, Metadata.bare_false]
  | map shape =>
      rcases shape with ⟨value, metadata⟩
      simp only [visitSchema, Schema.bare, Metadata.bare_false]
  | object shape =>
      rcases shape with ⟨properties, required, additional, discriminator, metadata⟩
      simp only [visitSchema, Schema.bare, Metadata.bare_false]
  | composed shape =>
      rcases shape with ⟨allOf, anyOf, oneOf, properties, required, discriminator, metadata⟩
      simp only [visitSchema, Schema.bare, Metadata.bare_false]

/-! ## Children of one kind -/

variable (parent : String)

theorem visitChildren_append (front back : Children) :
    visitChildren config policy parent (front ++ back) = (do
      let front ← visitChildren config policy parent front
      let back ← visitChildren config policy parent back
      pure (front ++ back)) :=
  visitValues_append _ front back

@[simp]
theorem visitChildren_nil : visitChildren config policy parent [] = pure [] :=
  rfl

@[simp]
theorem visitChildren_cons (edge : Edge) (schema : Schema) (rest : Children) :
    visitChildren config policy parent ((edge, schema) :: rest) = (do
      let schema ← visitSchema config policy edge.role false (derivedAt config parent edge) schema
      let rest ← visitChildren config policy parent rest
      pure ((edge, schema) :: rest)) :=
  rfl

theorem visitChildren_ofProperties (properties : List (String × Schema)) :
    visitChildren config policy parent (.ofProperties properties) = (do
      let properties ← visitProperties config policy parent properties
      pure (.ofProperties properties)) := by
  induction properties with
  | nil => simp [visitProperties, Children.ofProperties]
  | cons property rest ih =>
      rcases property with ⟨name, schema⟩
      change visitChildren config policy parent
        ((.property name, schema) :: Children.ofProperties rest) = _
      simp only [visitChildren_cons, visitProperties, ih, bind_assoc, pure_bind]
      rfl

theorem visitChildren_ofItems (items : Option Schema) :
    visitChildren config policy parent (.ofItems items) = (do
      let items ← visitOptional config policy (config.arrayItem parent) items
      pure (.ofItems items)) := by
  cases items <;>
    simp [visitOptional, Children.ofItems, Edge.role, derivedAt]

theorem visitChildren_parts (lifts : Bool) (index : Nat) (parts : List Schema) :
    visitChildren config policy parent
        (.ofMembers .allOf index (if lifts then Schema.bareParts parts else parts)) = (do
      let parts ← visitParts config policy (Naming.members parent .allOf) lifts parts
      pure (.ofMembers .allOf index parts)) := by
  induction parts generalizing lifts index with
  | nil => cases lifts <;> simp [visitParts, Children.ofMembers, Schema.bareParts]
  | cons part rest ih =>
      have unlifted := ih false (index + 1)
      have lifted := ih true (index + 1)
      simp only [if_true, if_false, Bool.false_eq_true] at unlifted lifted
      cases lifts with
      | false =>
          simp only [Children.ofMembers, visitChildren_cons, visitParts, unlifted, Edge.role,
            derivedAt, Bool.false_and, Bool.false_eq_true, if_false, bind_assoc, pure_bind]
      | true =>
          cases found : part.discriminatorValue?.isSome with
          | false =>
              simp only [Schema.bareParts, found, if_true, Bool.false_eq_true, if_false,
                Children.ofMembers, visitChildren_cons, visitParts, lifted, Edge.role, derivedAt,
                Bool.true_and, Bool.not_false, bind_assoc, pure_bind]
          | true =>
              simp only [Schema.bareParts, found, if_true, Children.ofMembers, visitChildren_cons,
                visitParts, unlifted, Edge.role, derivedAt, Bool.true_and, Bool.not_true,
                visitSchema_bare config policy .part true, bind_assoc, pure_bind]

theorem visitChildren_alternatives {keyword : Keyword} (alternative : keyword ≠ .allOf)
    (index : Nat) (schemas : List Schema) :
    visitChildren config policy parent (.ofMembers keyword index schemas) = (do
      let schemas ← visitAlternatives config policy (Naming.members parent keyword) schemas
      pure (.ofMembers keyword index schemas)) := by
  have role : ∀ index, Edge.role (.member keyword index) = .alternative := by
    intro index
    cases keyword <;> simp_all [Edge.role]
  induction schemas generalizing index with
  | nil => simp [visitAlternatives, Children.ofMembers]
  | cons schema rest ih =>
      simp only [Children.ofMembers, visitChildren_cons, visitAlternatives, ih, role, derivedAt,
        bind_assoc, pure_bind]

/-! ## The visit of a schema -/

/-- A schema is placed, and its children are visited after hoisting. -/
theorem visitSchema_eq (role : Role) (derived : String) {schema : Schema}
    (inline : schema.isReference = false) :
    visitSchema config policy role false derived schema =
      place config policy role schema derived fun parent => (do
        let below ← visitChildren config policy parent schema.hoisted.children
        pure (schema.hoisted.withChildren below)) := by
  cases schema with
  | reference => simp [Schema.isReference] at inline
  | boolean allowed =>
      cases role <;>
        simp [visitSchema, place, Schema.extractedAt, Schema.isExtractable,
          Schema.isAlternativeExtractable, Schema.hoisted, Schema.children,
          Schema.withChildren]
  | primitive shape =>
      simp [visitSchema, Schema.hoisted, Schema.children, Schema.withChildren]
  | array shape =>
      rcases shape with ⟨items, metadata⟩
      have items : ∀ items, Members.get? .item (Children.ofItems items) = items := by
        intro items
        cases items <;> rfl
      simp only [visitSchema, Metadata.bare_false, Schema.hoisted, Schema.children,
        Schema.withChildren, visitChildren_ofItems, items, bind_assoc, pure_bind]
  | map shape =>
      rcases shape with ⟨value, metadata⟩
      simp [visitSchema, Schema.hoisted, Schema.children, Schema.withChildren,
        Edge.role, derivedAt]
  | object shape =>
      rcases shape with ⟨properties, required, additional, discriminator, metadata⟩
      cases additional <;>
        simp [visitSchema, Schema.hoisted, Schema.children, Schema.withChildren,
          visitChildren_append, visitChildren_ofProperties, visitAdditional,
          Children.ofAdditional, Edge.role, derivedAt, Members.get?_append]
  | composed shape =>
      rcases shape with ⟨allOf, anyOf, oneOf, properties, required, discriminator, metadata⟩
      have anys : Keyword.anyOf ≠ .allOf := by decide
      have ones : Keyword.oneOf ≠ .allOf := by decide
      simp [visitSchema, Schema.hoisted, Schema.children, Schema.withChildren,
        ComposedSchema.lifted, visitChildren_append, visitChildren_ofProperties,
        visitChildren_parts, visitChildren_alternatives _ _ _ anys,
        visitChildren_alternatives _ _ _ ones, Children.members_ofMembers]

end SchemaLift.Flatten
