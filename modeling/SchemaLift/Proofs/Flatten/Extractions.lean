import SchemaLift.Proofs.Flatten.Extracted

/-!
# What there is to extract

The schemas that a visit extracts if it shares none of them, under whatever policy: the schema
itself if its position allows it, and then what there is to extract below it after hoisting
(`Schema.extractions`). The list depends neither on names nor on the state of the pass. A visit
extracts exactly the schemas in the list, or no more than that if it may share shapes
(`extracts_extractions`). Nothing is left to extract of what has been visited
(`Quiet.extractions_eq_nil`).
-/

namespace SchemaLift

/-! ## Sizes -/

theorem Members.sizeOf_erase_le {α : Type} [SizeOf α] (key : String) (members : Members α) :
    sizeOf (Members.erase key members) ≤ sizeOf members := by
  induction members with
  | nil => exact Nat.le_refl _
  | cons entry rest ih =>
      rcases entry with ⟨other, value⟩
      rw [erase_cons]
      split
      · rw [List.cons.sizeOf_spec]
        omega
      · rw [List.cons.sizeOf_spec, List.cons.sizeOf_spec]
        omega

theorem Metadata.sizeOf_bare_le (metadata : Metadata) (lifted : Bool) :
    sizeOf (metadata.bare lifted) ≤ sizeOf metadata := by
  cases lifted with
  | false => exact Nat.le_refl _
  | true =>
      have smaller := Members.sizeOf_erase_le discriminatorValueKey metadata.extensions
      rcases metadata
      simp only [bare, if_true, mk.sizeOf_spec] at smaller ⊢
      omega

namespace Schema

/-- A lost value makes no schema larger. -/
theorem sizeOf_bare_le (schema : Schema) (lifted : Bool) :
    sizeOf (schema.bare lifted) ≤ sizeOf schema := by
  cases schema with
  | reference => exact Nat.le_refl _
  | boolean => exact Nat.le_refl _
  | object shape =>
      have smaller := shape.metadata.sizeOf_bare_le lifted
      rcases shape
      simp only [bare, object.sizeOf_spec, ObjectSchema.mk.sizeOf_spec] at smaller ⊢
      omega
  | array shape =>
      have smaller := shape.metadata.sizeOf_bare_le lifted
      rcases shape
      simp only [bare, array.sizeOf_spec, ArraySchema.mk.sizeOf_spec] at smaller ⊢
      omega
  | map shape =>
      have smaller := shape.metadata.sizeOf_bare_le lifted
      rcases shape
      simp only [bare, map.sizeOf_spec, MapSchema.mk.sizeOf_spec] at smaller ⊢
      omega
  | composed shape =>
      have smaller := shape.metadata.sizeOf_bare_le lifted
      rcases shape
      simp only [bare, composed.sizeOf_spec, ComposedSchema.mk.sizeOf_spec] at smaller ⊢
      omega
  | primitive leaf =>
      have smaller := leaf.metadata.sizeOf_bare_le lifted
      rcases leaf
      simp only [bare, primitive.sizeOf_spec, PrimitiveSchema.mk.sizeOf_spec] at smaller ⊢
      omega

theorem sizeOf_lt_of_mem_children_hoisted {schema child : Schema} {edge : Edge}
    (below : (edge, child) ∈ schema.hoisted.children) : sizeOf child < sizeOf schema := by
  rcases exists_bare_of_mem_children_hoisted below with ⟨original, lifted, present, rfl⟩
  exact Nat.lt_of_le_of_lt (original.sizeOf_bare_le lifted) (sizeOf_lt_of_mem_children present)

end Schema

/-! ## Schemas -/

/-- The schemas that a visit extracts from a position if no shape is shared, in their order. -/
def Schema.extractions (policy : Policy) (role : Role) (schema : Schema) : List Schema :=
  (if schema.extractedAt policy role then [schema] else []) ++
    schema.hoisted.children.attach.flatMap fun entry =>
      entry.1.2.extractions policy entry.1.1.role
termination_by sizeOf schema
decreasing_by exact sizeOf_lt_of_mem_children_hoisted entry.2

/-- The schemas that a visit of children extracts if no shape is shared. -/
def Children.extractions (policy : Policy) (children : Children) : List Schema :=
  children.flatMap fun entry => entry.2.extractions policy entry.1.role

theorem Children.extractions_cons (policy : Policy) (edge : Edge) (schema : Schema)
    (rest : Children) :
    extractions policy ((edge, schema) :: rest) =
      schema.extractions policy edge.role ++ extractions policy rest :=
  rfl

theorem Schema.extractions_eq (policy : Policy) (role : Role) (schema : Schema) :
    schema.extractions policy role =
      (if schema.extractedAt policy role then [schema] else []) ++
        schema.hoisted.children.extractions policy := by
  rw [extractions, Children.extractions]
  simp only [List.flatMap_subtype, List.unattach_attach]

namespace Flatten

variable {config : Config} {policy : Policy}

/-- Nothing is extracted from what is quiet. -/
theorem Quiet.extractions_eq_nil {role : Role} {schema : Schema}
    (quiet : Quiet policy role schema) : schema.extractions policy role = [] := by
  induction schema using Schema.induction_hoisted generalizing role with
  | step schema ih =>
      have own := quiet
      rcases own with ⟨stays, _⟩
      rw [Schema.extractions_eq, stays, Children.extractions]
      refine List.flatMap_eq_nil_iff.mpr ?_
      rintro ⟨edge, child⟩ below
      exact ih edge child below (quiet.child below)

theorem extracts_children {children : Children}
    (each : ∀ edge child, (edge, child) ∈ children → ∀ derived before,
      Yields (visitSchema config policy edge.role false derived child) before fun _ after =>
        before.Extracts config (child.extractions policy edge.role) after)
    (parent : String) (before : State) :
    Yields (visitChildren config policy parent children) before fun _ after =>
      before.Extracts config (children.extractions policy) after := by
  induction children generalizing before with
  | nil => exact yields_pure (.of_extractions rfl)
  | cons entry rest ih =>
      rcases entry with ⟨edge, child⟩
      rw [visitChildren_cons, Children.extractions_cons]
      refine yields_bind (each edge child List.mem_cons_self _ before) fun result middle first => ?_
      refine yields_bind (ih (fun edge child present =>
        each edge child (List.mem_cons_of_mem _ present)) middle) fun results after second => ?_
      exact yields_pure (first.append second)

/-- A visit extracts what there is to extract, or no more than that if shapes are shared. -/
theorem extracts_extractions (role : Role) (derived : String) (schema : Schema) (before : State) :
    Yields (visitSchema config policy role false derived schema) before fun _ after =>
      before.Extracts config (schema.extractions policy role) after := by
  induction schema using Schema.induction_hoisted generalizing role derived before with
  | step schema ih =>
      cases inline : schema.isReference with
      | true =>
          obtain ⟨target, rfl⟩ := Schema.exists_eq_reference inline
          rw [(quiet_reference policy role target).extractions_eq_nil, visitSchema]
          refine yields_bind (yields_checkSchema target before) fun _ _ checks => ?_
          exact yields_pure (.of_checks checks)
      | false =>
          have below : ∀ parent before,
              Yields (visitChildren config policy parent schema.hoisted.children) before
                fun _ after => before.Extracts config
                  (schema.hoisted.children.extractions policy) after :=
            extracts_children fun edge child present => ih edge child present edge.role
          rw [Schema.extractions_eq, visitSchema_eq config policy role derived inline]
          refine yields_place (fun stays => ?_) fun moves => ?_
          · rw [if_neg (by simp [stays]), List.nil_append]
            exact yields_bind (below derived before) fun _ _ extracts => yields_pure extracts
          · rw [if_pos moves, List.singleton_append]
            refine yields_extract (fun name after reuse _ shares => .of_shares shares reuse _)
              fun name middle _ opens => ?_
            exact yields_bind (below name middle) fun _ _ extracts =>
              yields_pure (.of_opens opens extracts _)

end Flatten

end SchemaLift
