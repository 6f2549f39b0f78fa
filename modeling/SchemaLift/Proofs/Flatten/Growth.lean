import SchemaLift.Proofs.Document.Equality
import SchemaLift.Proofs.Flatten.Runs
import SchemaLift.Proofs.Flatten.Visited

/-!
# How the component schemas grow

The account of a pass that the theorems about its result rest on. A shape is known when it was
registered, or when it was a component schema in the beginning (`Knows`). Every schema of a position
becomes what a visit makes of it, with the shapes known by then; every component that is registered
on the way holds what a visit makes of its shape, which is a schema that the pass has met (`Meets`).

The contents of open components are blank, so that the invariant only speaks of names. That a
component holds what it should is said of the time from one state to another (`Grown`): what has
been opened in between has been closed again.
-/

namespace SchemaLift.Flatten

/-- The schemas that a pass over a document meets: those that stand at its positions, and from there
the children after hoisting. -/
inductive Meets (document : Document) : Schema → Prop
  | mentioned {enums : Bool} {schema : Schema} (inside : document.Mentions enums schema) :
      Meets document schema
  | component {name : String} {schema : Schema}
      (present : (name, schema) ∈ document.components.schemas) : Meets document schema
  | child {schema child : Schema} {edge : Edge} (parent : Meets document schema)
      (below : (edge, child) ∈ schema.hoisted.children) : Meets document child

theorem Meets.distinctKeys {document : Document} (distinct : document.DistinctKeys)
    {schema : Schema} (meets : Meets document schema) : schema.DistinctKeys := by
  induction meets with
  | mentioned inside => exact distinct.mentioned _ _ inside
  | component present => exact distinct.components _ _ present
  | child _ below ih =>
      rcases ih.hoisted with ⟨_, _, each⟩
      exact each _ _ below

/-- What a pass over a document may visit: schemas that it meets, and schemas that it has
visited. -/
structure Visitable (config : Config) (document : Document) (policy : Policy) (role : Role)
    (schema : Schema) : Prop where
  parts : policy.parts = config.options.refactorAllOf
  met : Meets document schema ∨ Quiet policy role schema
  distinct : schema.DistinctKeys

/-- The shape has a component of this name. -/
def Knows (registry : Registry) (name : String) (shape : Schema) : Prop :=
  (∃ base, ⟨base, shape, name⟩ ∈ registry.generated) ∨
    Members.get? name registry.initial = some shape

/-- A component holds what a visit makes of a shape. -/
def Holds (config : Config) (known : String → Schema → Prop) (shape content : Schema) : Prop :=
  ∃ policy : Policy, policy.parts = config.options.refactorAllOf ∧
    Visited policy known .component shape content

/-- The names of the components are those from the beginning and those given since, each once. -/
structure Named (registry : Registry) : Prop where
  distinct : Members.Distinct registry.schemas
  keys : Members.keys registry.schemas =
    Members.keys registry.initial ++ registry.generated.map Extraction.name

/-- From one state to another, registered components keep what they hold, and new ones hold what a
visit makes of their shapes. -/
structure Grown (config : Config) (before after : State) : Prop where
  initial : after.registry.initial = before.registry.initial
  names : Members.keys before.registry.schemas ⊆ Members.keys after.registry.schemas
  kept : ∀ extraction ∈ before.registry.generated, ∀ content,
    Members.get? extraction.name before.registry.schemas = some content →
      Members.get? extraction.name after.registry.schemas = some content
  added : ∃ added, after.registry.generated = before.registry.generated ++ added ∧
    ∀ extraction ∈ added, extraction.name ∉ Members.keys before.registry.schemas ∧
      ∃ content, Members.get? extraction.name after.registry.schemas = some content ∧
        Holds config (Knows after.registry) extraction.shape content

theorem Holds.mono {config : Config} {known wider : String → Schema → Prop}
    {shape content : Schema} (holds : Holds config known shape content)
    (widen : ∀ name shape, known name shape → wider name shape) :
    Holds config wider shape content := by
  rcases holds with ⟨policy, parts, visited⟩
  exact ⟨policy, parts, visited.mono widen⟩

namespace Grown

variable {config : Config} {first second third : State}

theorem knows (grown : Grown config first second) {name : String} {shape : Schema}
    (known : Knows first.registry name shape) : Knows second.registry name shape := by
  rcases grown.added with ⟨added, generated, _⟩
  rcases known with ⟨base, present⟩ | original
  · exact Or.inl ⟨base, by rw [generated]; exact List.mem_append_left _ present⟩
  · exact Or.inr (by rw [grown.initial]; exact original)

theorem of_registry (registry : second.registry = first.registry) : Grown config first second := by
  refine ⟨by rw [registry], by rw [registry]; exact fun _ => id, ?_, [],
    by rw [registry, List.append_nil], by simp⟩
  intro extraction _ content found
  rwa [registry]

theorem trans (left : Grown config first second) (right : Grown config second third) :
    Grown config first third := by
  rcases left.added with ⟨added, generated, each⟩
  rcases right.added with ⟨later, more, others⟩
  refine ⟨right.initial.trans left.initial, fun _ present => right.names (left.names present), ?_,
    added ++ later, ?_, ?_⟩
  · intro extraction present content found
    refine right.kept extraction ?_ content (left.kept extraction present content found)
    rw [generated]
    exact List.mem_append_left _ present
  · rw [more, generated, List.append_assoc]
  · intro extraction present
    rcases List.mem_append.mp present with early | late
    · rcases each extraction early with ⟨fresh, content, found, holds⟩
      refine ⟨fresh, content, right.kept extraction ?_ content found,
        holds.mono fun _ _ => right.knows⟩
      rw [generated]
      exact List.mem_append_right _ early
    · rcases others extraction late with ⟨fresh, rest⟩
      exact ⟨fun old => fresh (left.names old), rest⟩

end Grown

/-! ## Opening and closing components -/

variable {config : Config} {before middle after : State} {base name : String}
  {shape content result : Schema}

theorem keys_withComponent (state : State) (name : String) (content : Schema) :
    Members.keys (state.withComponent name content).registry.schemas =
      Members.keys state.registry.schemas :=
  Members.keys_update name content state.registry.schemas

theorem Named.withComponent {state : State} (named : Named state.registry) (name : String)
    (content : Schema) : Named (state.withComponent name content).registry := by
  constructor
  · rw [Members.Distinct, keys_withComponent]
    exact named.distinct
  · exact (keys_withComponent state name content).trans named.keys

theorem Named.opens (named : Named before.registry)
    (opens : before.Opens base name shape content middle) : Named middle.registry := by
  have keys : Members.keys middle.registry.schemas =
      Members.keys before.registry.schemas ++ [name] := by
    rw [opens.schemas, Members.keys_append]
    rfl
  constructor
  · rw [Members.Distinct, keys]
    refine List.nodup_append.mpr ⟨named.distinct, List.nodup_singleton name, ?_⟩
    rintro old present _ single rfl
    exact opens.fresh (List.mem_singleton.mp single ▸ present)
  · rw [keys, named.keys, opens.initial, opens.generated]
    simp

/-- Registered names are not among those from the beginning. -/
theorem Named.not_mem_initial {registry : Registry} (named : Named registry)
    {extraction : Extraction} (present : extraction ∈ registry.generated) :
    extraction.name ∉ Members.keys registry.initial := by
  have distinct := named.distinct
  rw [Members.Distinct, named.keys] at distinct
  intro original
  exact (List.nodup_append.mp distinct).2.2 _ original _ (List.mem_map_of_mem present) rfl

theorem Named.not_mem_initial_of_name {registry : Registry} (named : Named registry)
    {name : String} (generated : name ∈ registry.generated.map Extraction.name) :
    name ∉ Members.keys registry.initial := by
  rcases List.mem_map.mp generated with ⟨extraction, present, rfl⟩
  exact named.not_mem_initial present

/-- Extractions with the same name are one. -/
theorem Named.eq_of_name_eq {registry : Registry} (named : Named registry)
    {first second : Extraction} (left : first ∈ registry.generated)
    (right : second ∈ registry.generated) (names : first.name = second.name) : first = second := by
  have keys := named.distinct
  rw [Members.Distinct, named.keys] at keys
  exact List.inj_on_of_nodup_map (List.nodup_append.mp keys).2.1 left right names

theorem Named.mem_keys_of_generated {registry : Registry} (named : Named registry)
    {extraction : Extraction} (present : extraction ∈ registry.generated) :
    extraction.name ∈ Members.keys registry.schemas := by
  rw [named.keys]
  exact List.mem_append_right _ (List.mem_map_of_mem present)

/-- What can be reused has a component. -/
theorem Named.mem_keys {registry : Registry} (named : Named registry) {base name : String}
    {shape : Schema} (found : registry.reusable? base shape = some name) :
    name ∈ Members.keys registry.schemas := by
  rcases Registry.reusable?_eq_some found with ⟨known, present, _, _, rfl⟩ | ⟨rfl, _, found, _⟩
  · exact named.mem_keys_of_generated present
  · rw [named.keys]
    exact List.mem_append_left _ (Members.mem_keys_of_mem (Members.mem_of_get?_eq_some found))

theorem grown_of_opens (opens : before.Opens base name shape .blank middle)
    (grown : Grown config middle after)
    (holds : Holds config (Knows after.registry) shape result) :
    Grown config before (after.withComponent name result) := by
  rcases grown.added with ⟨added, generated, each⟩
  have middleKeys : Members.keys middle.registry.schemas =
      Members.keys before.registry.schemas ++ [name] := by
    rw [opens.schemas, Members.keys_append]
    rfl
  have present : name ∈ Members.keys after.registry.schemas := by
    apply grown.names
    rw [middleKeys]
    exact List.mem_append_right _ List.mem_cons_self
  refine ⟨grown.initial.trans opens.initial, ?_, ?_, ⟨base, shape, name⟩ :: added, ?_, ?_⟩
  · intro old inside
    rw [keys_withComponent]
    apply grown.names
    rw [middleKeys]
    exact List.mem_append_left _ inside
  · intro extraction inside content found
    have differs : extraction.name ≠ name := by
      intro same
      exact opens.fresh (same ▸ Members.mem_keys_of_mem (Members.mem_of_get?_eq_some found))
    refine (Members.get?_update_of_ne differs _ _).trans (grown.kept extraction ?_ content ?_)
    · exact opens.mem_generated_iff.mpr (Or.inl inside)
    · rw [opens.schemas, Members.get?_append, found, Option.some_or]
  · change after.registry.generated = _
    rw [generated, opens.generated, List.append_assoc]
    rfl
  · intro extraction inside
    rcases List.mem_cons.mp inside with rfl | later
    · exact ⟨opens.fresh, result, Members.get?_update_self present result, holds⟩
    · rcases each extraction later with ⟨fresh, content, found, held⟩
      rw [middleKeys] at fresh
      have differs : extraction.name ≠ name := by
        intro same
        exact fresh (List.mem_append_right _ (List.mem_singleton.mpr same))
      refine ⟨fun old => fresh (List.mem_append_left _ old), content, ?_, held⟩
      exact (Members.get?_update_of_ne differs _ _).trans found

theorem grown_of_taken (named : Named before.registry)
    (original : name ∈ Members.keys before.registry.initial)
    (grown : Grown config (before.withComponent name .blank) after) :
    Grown config before (after.withComponent name result) := by
  rcases grown.added with ⟨added, generated, each⟩
  have there : name ∈ Members.keys before.registry.schemas := by
    rw [named.keys]
    exact List.mem_append_left _ original
  refine ⟨grown.initial, ?_, ?_, added, generated, ?_⟩
  · intro old inside
    rw [keys_withComponent]
    exact grown.names (by rwa [keys_withComponent])
  · intro extraction inside content found
    have differs : extraction.name ≠ name := fun same =>
      named.not_mem_initial inside (same ▸ original)
    refine (Members.get?_update_of_ne differs _ _).trans (grown.kept extraction inside content ?_)
    exact (Members.get?_update_of_ne differs _ _).trans found
  · intro extraction inside
    rcases each extraction inside with ⟨fresh, content, found, held⟩
    rw [keys_withComponent] at fresh
    have differs : extraction.name ≠ name := fun same => fresh (same ▸ there)
    exact ⟨fresh, content, (Members.get?_update_of_ne differs _ _).trans found, held⟩

/-! ## The account -/

theorem Visitable.child {document : Document} {policy : Policy} {role : Role}
    {schema child : Schema}
    {edge : Edge} (visitable : Visitable config document policy role schema)
    (below : (edge, child) ∈ schema.hoisted.children) :
    Visitable config document policy edge.role child := by
  rcases visitable with ⟨parts, met, distinct⟩
  rcases distinct.hoisted with ⟨_, _, each⟩
  exact ⟨parts, met.imp (fun meets => meets.child below) fun quiet => quiet.child below,
    each edge child below⟩

/-- Only what the pass meets is extracted. -/
theorem Visitable.meets {document : Document} {policy : Policy} {role : Role} {schema : Schema}
    (visitable : Visitable config document policy role schema)
    (moves : schema.extractedAt policy role = true) : Meets document schema := by
  rcases visitable.met with meets | ⟨stays, _⟩
  · exact meets
  · simp [stays] at moves

/-- What becomes of schemas, and what components hold. -/
def growth (config : Config) (document : Document) : Account config where
  Inv state := Named state.registry ∧
    ∀ extraction ∈ state.registry.generated, Meets document extraction.shape
  Later := Grown config
  Fits := Visitable config document
  Becomes state policy role schema result :=
    Visited policy (Knows state.registry) role schema result
  later_refl _ := Grown.of_registry rfl
  later_trans := Grown.trans
  becomes_later grown visited := visited.mono fun _ _ => grown.knows
  sameSchemas inv same := ⟨by rw [same.registry]; exact inv, Grown.of_registry same.registry⟩
  fits_child := Visitable.child
  reference _ _ role target := Visited.reference role target
  kept _ inline stays visited := Visited.kept inline stays visited
  shared := by
    intro before after policy role schema derived name inv _ moves _ found shares
    refine ⟨by rw [shares.registry]; exact inv, Grown.of_registry shares.registry, ?_⟩
    rw [shares.registry]
    rcases Registry.reusable?_eq_some found with ⟨known, present, _, same, rfl⟩ | original
    · exact Visited.moved moves (Or.inl ⟨known.base, present⟩) same
    · rcases original with ⟨rfl, shape, lookup, same⟩
      exact Visited.moved moves (Or.inr lookup) same
  opened := by
    rintro before middle policy role schema derived name ⟨named, shapes⟩ fits moves _ opens
    refine ⟨named.opens opens, fun extraction present => ?_⟩
    rcases opens.mem_generated_iff.mp present with old | rfl
    · exact shapes extraction old
    · exact fits.meets moves
  closed := by
    intro before middle after policy role schema derived name below _ fits moves opens ends
      grown _ related
    have visited : Visited policy (Knows after.registry) .component schema
        (schema.hoisted.withChildren below) :=
      Visited.kept (Schema.isReference_of_extractedAt moves) rfl related
    refine ⟨⟨ends.1.withComponent name _, ends.2⟩,
      grown_of_opens opens grown ⟨policy, fits.parts, visited⟩, ?_⟩
    refine Visited.moved moves (Or.inl ⟨(config.baseName schema derived).base, ?_⟩)
      (Schema.same_refl fits.distinct)
    rcases grown.added with ⟨added, generated, _⟩
    change _ ∈ after.registry.generated
    rw [generated, opens.generated]
    simp
  taken inv _ := ⟨inv.1.withComponent _ _, inv.2⟩
  returned := by
    intro before after name schema result inv original ends grown _
    refine ⟨⟨ends.1.withComponent name result, ends.2⟩, grown_of_taken inv.1 ?_ grown,
      fun visited => visited⟩
    exact Members.mem_keys_of_mem (Members.mem_of_get?_eq_some original)
  fits_again fits visited :=
    ⟨fits.parts, Or.inr (visited.quiet (Policy.Within.refl _)), visited.distinctKeys fits.distinct⟩
  again := by
    intro state policy schema middle result _ first second
    rw [second.eq_of_quiet (first.quiet (Policy.Within.refl policy)) (first.still (Or.inl rfl))]
    exact first

/-! ## The result of a pass -/

/-- A document is what a pass makes of another one, where the known shapes have components. -/
structure Flattens (config : Config) (known : String → Schema → Prop) (document result : Document) :
    Prop where
  /-- Outside the component schemas every schema becomes what a visit makes of it. -/
  outside : document.Related (fun enums schema other => schema.DistinctKeys ∧
    Visited (policyFor config enums) known .slot schema other) result
  /-- The component schemas of the document keep their names. -/
  components : ∀ name schema, Members.get? name document.components.schemas = some schema →
    known name schema
  /-- The component of a known shape holds what a visit makes of it. -/
  contents : ∀ name shape, known name shape →
    Meets document shape ∧
      ∃ content, Members.get? name result.components.schemas = some content ∧
        Holds config known shape content
  /-- There are no other component schemas than those of known shapes. -/
  origins : ∀ name content, (name, content) ∈ result.components.schemas →
    ∃ shape, known name shape ∧ Holds config known shape content
  names : Members.Distinct result.components.schemas

theorem Flattens.of_settles {document result : Document} {after : State}
    (settles : (growth config document).Settles document result after) :
    Flattens config (Knows after.registry) document result := by
  rcases settles with ⟨⟨named, shapes⟩, grown, outside, schemas, done, added, split, related⟩
  have initial : after.registry.initial = document.components.schemas := grown.initial
  have contents : ∀ name shape, Knows after.registry name shape →
      Meets document shape ∧
        ∃ content, Members.get? name result.components.schemas = some content ∧
          Holds config (Knows after.registry) shape content := by
    rw [schemas]
    rintro name shape (⟨base, present⟩ | original)
    · rcases grown.added with ⟨later, generated, each⟩
      have new : ⟨base, shape, name⟩ ∈ later := by
        rw [generated] at present
        exact present
      rcases each _ new with ⟨_, content, found, holds⟩
      exact ⟨shapes _ present, content, found, holds⟩
    · rw [initial] at original
      rcases related.get?_eq_some original with ⟨content, found, visited⟩
      refine ⟨Meets.component (Members.mem_of_get?_eq_some original), content, ?_,
        policyFor config false, rfl, visited⟩
      rw [split, Members.get?_append, found, Option.some_or]
  have names : Members.Distinct result.components.schemas := by
    rw [schemas]
    exact named.distinct
  refine ⟨outside.mono fun _ _ _ finished => ⟨finished.1.distinct, finished.2⟩, ?_, contents, ?_,
    names⟩
  · intro name schema found
    exact Or.inr (by rwa [initial])
  · intro name content present
    obtain ⟨shape, known⟩ : ∃ shape, Knows after.registry name shape := by
      have key := Members.mem_keys_of_mem present
      rw [schemas, named.keys, List.mem_append] at key
      rcases key with original | registered
      · rcases Members.exists_get?_eq_some_of_mem_keys original with ⟨shape, found⟩
        exact ⟨shape, Or.inr found⟩
      · rcases List.mem_map.mp registered with ⟨extraction, inside, rfl⟩
        exact ⟨extraction.shape, Or.inl ⟨extraction.base, inside⟩⟩
    rcases contents name shape known with ⟨_, held, found, holds⟩
    cases (names.get?_eq_some present).symm.trans found
    exact ⟨shape, known, holds⟩

/-- The account of a pass over a document in which no map has a key twice. -/
theorem yields_growth (config : Config) {document : Document} (distinct : document.DistinctKeys) :
    Yields (visitDocument config document) (start config document) fun paths after =>
      (growth config document).Settles document (finished document paths after) after := by
  have named : Named (start config document).registry :=
    ⟨distinct.names, by simp [start, Registry.ofSchemas]⟩
  have own : document.Related (Keeps fun _ => Meets document) document :=
    Document.related_self fun _ _ inside => Meets.mentioned inside
  have roots : document.Related (fun enums schema other =>
      other = schema ∧ Visitable config document (policyFor config enums) .slot schema) document :=
    own.mono fun _ _ _ fits => ⟨fits.1, rfl, Or.inl fits.2, fits.2.distinctKeys distinct⟩
  exact (growth config document).visitDocument
    ⟨named, by simp [start, Registry.ofSchemas]⟩ distinct.names roots fun name schema present =>
      ⟨rfl, Or.inl (Meets.component present), distinct.components name schema present⟩

/-- A pass over a document in which no map has a key twice has an outcome, which the document is
flattened to. -/
theorem exists_flattens (config : Config) {document : Document} (distinct : document.DistinctKeys) :
    ∃ outcome known, document.flatten config = .ok outcome ∧
      Flattens config known document outcome.document := by
  obtain ⟨outcome, paths, after, run, settles, result, _, _⟩ :=
    flatten_of_yields (yields_growth config distinct)
  exact ⟨outcome, Knows after.registry, run, result ▸ Flattens.of_settles settles⟩

/-- What a document is flattened to has no map with a key twice. -/
theorem Flattens.distinctKeys {known : String → Schema → Prop} {document result : Document}
    (flattens : Flattens config known document result) (distinct : document.DistinctKeys) :
    result.DistinctKeys := by
  refine ⟨flattens.outside.distinctMaps distinct.maps, ?_, flattens.names, ?_⟩
  · intro enums schema inside
    rcases flattens.outside.exists_mentioned inside with ⟨original, _, own, visited⟩
    exact visited.distinctKeys own
  · intro name content present
    rcases flattens.origins name content present with ⟨shape, shapeKnown, _, _, visited⟩
    rcases flattens.contents name shape shapeKnown with ⟨meets, _⟩
    exact visited.distinctKeys (meets.distinctKeys distinct)

end SchemaLift.Flatten
