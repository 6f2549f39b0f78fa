import SchemaLift.Proofs.Audit.Order
import SchemaLift.Proofs.Flatten.Visited

/-!
# Inline schemas in order

The inline schemas that an audit finds, one for each location that it lists. A schema comes before
those below it (`inlineOf_sightings`). Hoisting makes no difference: it takes something only from
members of `allOf`, which are not inline, and leaves their children alone (`inlineOf_hoisted`).
-/

namespace SchemaLift

/-- The schemas among sightings that would be extracted if no option says more. -/
def inlineOf (sightings : List Sighting) : List Schema :=
  (sightings.filter Sighting.isInline).map Sighting.schema

@[simp]
theorem inlineOf_nil : inlineOf [] = [] :=
  rfl

@[simp]
theorem inlineOf_append (front back : List Sighting) :
    inlineOf (front ++ back) = inlineOf front ++ inlineOf back := by
  simp [inlineOf]

theorem inlineOf_cons (sighting : Sighting) (rest : List Sighting) :
    inlineOf (sighting :: rest) =
      (if sighting.isInline then [sighting.schema] else []) ++ inlineOf rest := by
  cases inline : sighting.isInline <;> simp [inlineOf, inline]

theorem inlineOf_flatMap {α : Type} (each : α → List Sighting) (values : List α) :
    inlineOf (values.flatMap each) = values.flatMap fun value => inlineOf (each value) := by
  induction values with
  | nil => rfl
  | cons value rest ih => rw [List.flatMap_cons, inlineOf_append, ih, List.flatMap_cons]

theorem Document.length_inlineLocations (document : Document) :
    document.inlineLocations.length = (inlineOf document.sightings).length := by
  simp [inlineLocations, inlineOf]

/-- The inline schemas of a schema at a position. -/
theorem inlineOf_sightings (schema : Schema) (location : Location) (role : Role) :
    inlineOf (schema.sightings location role) =
      (if schema.extractedAt {} role then [schema] else []) ++
        inlineOf (schema.children.sightings location) := by
  rw [Schema.sightings_eq, inlineOf_cons]
  rfl

theorem inlineOf_bare (schema : Schema) (lifted : Bool) (location : Location) :
    inlineOf ((schema.bare lifted).sightings location .part) =
      inlineOf (schema.sightings location .part) := by
  rw [inlineOf_sightings, inlineOf_sightings, Schema.children_bare]
  simp [Schema.extractedAt]

/-- The same schemas are inline below a schema before and after hoisting. -/
theorem inlineOf_hoisted (schema : Schema) (location : Location) :
    inlineOf (schema.hoisted.children.sightings location) =
      inlineOf (schema.children.sightings location) := by
  have related := schema.related_children_hoisted
  generalize schema.children = children at related ⊢
  generalize schema.hoisted.children = hoistedChildren at related ⊢
  induction related with
  | nil => rfl
  | @cons edge child hoistedChild _ _ fits _ ih =>
      rcases fits with ⟨lifted, rfl, elsewhere⟩
      rw [Children.sightings_cons, Children.sightings_cons, inlineOf_append, inlineOf_append, ih]
      congr 1
      by_cases part : edge.role = .part
      · rw [part]
        exact inlineOf_bare child lifted _
      · rw [elsewhere part, Schema.bare_not_lifted]

/-- Nothing is inline in what is quiet. -/
theorem Flatten.Quiet.inlineOf_eq_nil {role : Role} {schema : Schema}
    (quiet : Quiet {} role schema) (location : Location) :
    inlineOf (schema.sightings location role) = [] := by
  induction schema using Schema.induction generalizing role location with
  | step schema ih =>
      rcases quiet with ⟨stays, below⟩
      have none : ∀ children : Children, (∀ entry ∈ children, entry ∈ schema.children) →
          inlineOf (children.sightings location) = [] := by
        intro children inside
        induction children with
        | nil => rfl
        | cons entry rest later =>
            have present := inside entry List.mem_cons_self
            rw [Children.sightings_cons, inlineOf_append,
              ih _ _ present (below _ _ present) _,
              later fun entry listed => inside entry (List.mem_cons_of_mem _ listed)]
            rfl
      rw [inlineOf_sightings, stays, none _ fun _ present => present]
      rfl

end SchemaLift
