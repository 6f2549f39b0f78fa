import SchemaLift.Proofs.Flatten.Tally

/-!
# What all visits of a pass keep to

A trend is a relation between a state and a later one that every visit of a schema keeps to, from
whatever state: that component schemas are only added, say. The rest of a pass keeps to it as well,
since all that happens there is bookkeeping and the exchange of components, and so the whole pass
runs to its end along the trend (`Trend.visitDocument`).
-/

namespace SchemaLift.Flatten

/-- A trend of the passes with a configuration. -/
structure Trend (config : Config) where
  Goes : State → State → Prop
  trans {first second third : State} : Goes first second → Goes second third → Goes first third
  sameSchemas {before after : State} : before.SameSchemas after → Goes before after
  withComponent (state : State) (name : String) (content : Schema) :
    Goes state (state.withComponent name content)
  /-- The components that are there stay. -/
  keys_subset {before after : State} : Goes before after →
    Members.keys before.registry.schemas ⊆ Members.keys after.registry.schemas
  schema (policy : Policy) (role : Role) (derived : String) (schema : Schema) (before : State) :
    Yields (visitSchema config policy role false derived schema) before fun _ after =>
      Goes before after

namespace Trend

variable {config : Config} (trend : Trend config)

/-- A trend as a tally that does not look at sightings. -/
def tally : Tally config where
  Adds before _ after := trend.Goes before after
  nil _ := trend.sameSchemas ⟨rfl, rfl, rfl, rfl⟩
  append := trend.trans
  reports reports := trend.sameSchemas reports.sameSchemas
  schema enums derived _ := trend.schema (policyFor config enums) .slot derived

theorem visitBodyReference (target : Reference) : trend.tally.Skips target := by
  intro base before
  apply yields_get
  split
  · next name body reached =>
      apply yields_bind (trend.tally.visitRequestBody [] base body before)
      intro result middle goes
      exact yields_modify _ (trend.trans goes (trend.sameSchemas ⟨rfl, rfl, rfl, rfl⟩))
  · exact (yields_noteUnresolved target.pointer before).mono
      fun _ _ reports => trend.sameSchemas reports.sameSchemas

/-- A component that is there can be visited. -/
theorem visitComponent (policy : Policy) {name : String} {before : State}
    (present : name ∈ Members.keys before.registry.schemas) :
    Yields (Flatten.visitComponent config policy name) before fun _ after =>
      trend.Goes before after := by
  obtain ⟨schema, found⟩ := Members.exists_get?_eq_some_of_mem_keys present
  apply yields_bind (yields_takeOut found)
  rintro taken middle ⟨rfl, rfl⟩
  apply yields_bind (trend.schema policy .component name taken _)
  intro result visited goes
  apply (yields_putBack name result visited).mono
  rintro _ _ rfl
  have out := trend.trans (trend.withComponent before name .blank) goes
  exact trend.trans out (trend.withComponent visited name result)

theorem visitComponents {names : List String} {before : State}
    (present : names ⊆ Members.keys before.registry.schemas) :
    Yields (Flatten.visitComponents config names) before fun _ after =>
      trend.Goes before after := by
  induction names generalizing before with
  | nil => exact yields_pure (trend.sameSchemas ⟨rfl, rfl, rfl, rfl⟩)
  | cons name rest ih =>
      apply yields_bind (trend.visitComponent _ (present List.mem_cons_self))
      intro _ middle first
      have others : rest ⊆ Members.keys middle.registry.schemas := fun _ inside =>
        trend.keys_subset first (present (List.mem_cons_of_mem _ inside))
      exact (ih others).mono fun _ _ later => trend.trans first later

/-- A pass over a document runs to its end along the trend. -/
theorem visitDocument (document : Document) :
    Yields (Flatten.visitDocument config document) (start config document) fun _ last =>
      trend.Goes (start config document) last := by
  apply yields_bind (Tally.visitPaths (fun _ _ _ target _ => trend.visitBodyReference target) []
    (start config document))
  intro paths first fromStart
  apply yields_get
  apply yields_bind (trend.tally.visitComponentBodies first.requestBodies first)
  intro bodies second fromFirst
  apply yields_bind (yields_modify (fun _ after => second.SameSchemas after) ⟨rfl, rfl, rfl, rfl⟩)
  intro _ third same
  apply yields_get
  apply yields_bind (trend.tally.visitComponentResponses third.responses third)
  intro responses fourth fromThird
  apply yields_bind (yields_modify (fun _ after => fourth.SameSchemas after) ⟨rfl, rfl, rfl, rfl⟩)
  intro _ fifth again
  have untilThird := trend.trans fromStart (trend.trans fromFirst (trend.sameSchemas same))
  have untilFifth := trend.trans untilThird (trend.trans fromThird (trend.sameSchemas again))
  apply yields_bind (trend.visitComponents (trend.keys_subset untilFifth))
  intro _ last fromFifth
  exact yields_pure (trend.trans untilFifth fromFifth)

end Trend

/-- The trend of the component schemas, which only become more. -/
def growing (config : Config) : Trend config where
  Goes before after :=
    Members.keys before.registry.schemas ⊆ Members.keys after.registry.schemas
  trans := List.Subset.trans
  sameSchemas same := by rw [same.registry]; exact List.Subset.refl _
  withComponent state name content := by
    rw [State.withComponent, Registry.restore, Members.keys_update]
    exact List.Subset.refl _
  keys_subset keeps := keeps
  schema policy role derived schema before :=
    (yields_visitSchema config policy role derived schema before).mono
      fun _ _ ends => ends.2.1.keys_subset

end SchemaLift.Flatten
