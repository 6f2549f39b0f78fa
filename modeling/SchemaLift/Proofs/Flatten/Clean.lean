import SchemaLift.Proofs.Flatten.EnumFree

/-!
# Components that may be referred to from where enumerations count

A shape that is folded into a component is not visited again: what stands in the component has been
visited for the surroundings in which the shape was first met. The components that hold no
enumeration in place, and refer to no others that do, are the largest set that is closed under
references (`Clean`). While a component is open its place is blank, which says nothing; it is in the
set then only if its shape decides what will stand there (`Harmless`).

The references that matter are those to components of certain names, which will be the names that
the pass registers. Where enumerations count, a visit puts references to clean components only
(`clearing`).
-/

namespace SchemaLift.Flatten

/-- The schema has no reference to a component of one of the names. -/
def Avoids (names : List String) (schema : Schema) : Prop :=
  ∀ name ∈ names, ¬schema.RefersTo (Pointer.toSchema name)

/-- A visit of the schema, by the policy, leaves no enumeration in place. -/
def Clears (names : List String) (policy : Policy) (role : Role) (schema : Schema) : Prop :=
  Avoids names schema ∧ (policy.inlineEnums = true ∨ schema.EnumFree role)

/-- No enumeration stands in place, and references to the names lead to components that are
clean. -/
structure Tidy (names : List String) (clean : String → Prop) (role : Role) (schema : Schema) :
    Prop where
  enumFree : schema.EnumFree role
  leads : ∀ name ∈ names, schema.RefersTo (Pointer.toSchema name) → clean name

/-- A visit of the shape leaves no enumeration in place, even where enumerations do not count. -/
def Harmless (document : Document) (names : List String) (shape : Schema) : Prop :=
  MetIn document false shape → Avoids names shape ∧ shape.EnumFree .component

variable {config : Config} {document : Document} {names : List String} {policy : Policy}
  {role : Role} {schema result : Schema}

theorem Clears.child (clears : Clears names policy role schema) {edge : Edge} {child : Schema}
    (below : (edge, child) ∈ schema.hoisted.children) : Clears names policy edge.role child := by
  rcases clears with ⟨avoids, free⟩
  constructor
  · exact fun name listed refers =>
      avoids name listed (refersTo_of_mem_children_hoisted below refers)
  · exact free.imp_right fun free => free.child_hoisted below

theorem Clears.component (clears : Clears names policy role schema) :
    Clears names policy .component schema :=
  ⟨clears.1, clears.2.imp_right Schema.EnumFree.component⟩

theorem Tidy.mono {clean wider : String → Prop} (tidy : Tidy names clean role schema)
    (widen : ∀ name, clean name → wider name) : Tidy names wider role schema :=
  ⟨tidy.enumFree, fun name listed refers => widen name (tidy.leads name listed refers)⟩

theorem Visited.tidy {known : String → Schema → Prop} {clean : String → Prop}
    (visited : Visited policy known role schema result) (clears : Clears names policy role schema)
    (leads : ∀ name shape, known name shape → name ∈ names → clean name) :
    Tidy names clean role result := by
  refine ⟨visited.enumFree clears.2, fun name listed refers => ?_⟩
  rcases visited.refersTo refers with own | ⟨other, shape, registered, same⟩
  · exact absurd own (clears.1 name listed)
  · cases Pointer.toSchema_injective same
    exact leads name shape registered listed

/-! ## Clean components -/

/-- Registered components keep what they hold. -/
structure Steady (before after : State) : Prop where
  kept : ∀ extraction ∈ before.registry.generated, extraction ∈ after.registry.generated ∧
    Members.get? extraction.name after.registry.schemas =
      Members.get? extraction.name before.registry.schemas

/-- A set of registered components that is closed under references to the names. An open component
may be in it with reuse, if its shape is harmless. -/
structure Closed (config : Config) (document : Document) (names : List String) (state : State)
    (clean : String → Prop) : Prop where
  registered : ∀ name, clean name → name ∈ state.registry.generated.map Extraction.name
  tidy : ∀ name content, clean name → Members.get? name state.registry.schemas = some content →
    Tidy names clean .component content
  blank : ∀ name, clean name → Members.get? name state.registry.schemas = some .blank →
    config.options.skipSchemaReuse = false ∧ ∃ extraction ∈ state.registry.generated,
      extraction.name = name ∧ Harmless document names extraction.shape

/-- The component belongs to a closed set. -/
def Clean (config : Config) (document : Document) (names : List String) (state : State)
    (name : String) : Prop :=
  ∃ clean, Closed config document names state clean ∧ clean name

variable {before middle after : State} {name : String} {content : Schema}

namespace Steady

theorem of_registry (registry : after.registry = before.registry) : Steady before after :=
  ⟨fun _ present => by rw [registry]; exact ⟨present, rfl⟩⟩

theorem trans (left : Steady before middle) (right : Steady middle after) :
    Steady before after := by
  constructor
  intro extraction present
  rcases left.kept extraction present with ⟨there, first⟩
  rcases right.kept extraction there with ⟨last, second⟩
  exact ⟨last, second.trans first⟩

theorem withComponent (steady : Steady before after)
    (others : name ∉ before.registry.generated.map Extraction.name) :
    Steady before (after.withComponent name content) := by
  constructor
  intro extraction present
  rcases steady.kept extraction present with ⟨there, same⟩
  have differs : extraction.name ≠ name := by
    rintro rfl
    exact others (List.mem_map_of_mem present)
  exact ⟨there, (Members.get?_update_of_ne differs _ _).trans same⟩

theorem of_opens {base : String} (named : Named before.registry)
    (opens : before.Opens base name schema content after) : Steady before after := by
  constructor
  intro extraction present
  refine ⟨opens.mem_generated_iff.mpr (Or.inl present), ?_⟩
  rcases Members.exists_get?_eq_some_of_mem_keys (named.mem_keys_of_generated present) with
    ⟨content, found⟩
  rw [opens.schemas, Members.get?_append, found, Option.some_or]

end Steady

/-- The largest closed set is closed. -/
theorem closed_clean (state : State) :
    Closed config document names state (Clean config document names state) := by
  constructor
  · rintro name ⟨clean, closed, inside⟩
    exact closed.registered name inside
  · rintro name content ⟨clean, closed, inside⟩ found
    exact (closed.tidy name content inside found).mono fun other there => ⟨clean, closed, there⟩
  · rintro name ⟨clean, closed, inside⟩ found
    exact closed.blank name inside found

theorem Clean.later (steady : Steady before after)
    (clean : Clean config document names before name) :
    Clean config document names after name := by
  refine ⟨_, ?_, clean⟩
  have closed : Closed config document names before _ := closed_clean before
  constructor
  · intro name inside
    rcases List.mem_map.mp (closed.registered name inside) with ⟨extraction, present, rfl⟩
    exact List.mem_map_of_mem (steady.kept extraction present).1
  · intro name content inside found
    rcases List.mem_map.mp (closed.registered name inside) with ⟨extraction, present, rfl⟩
    rw [(steady.kept extraction present).2] at found
    exact closed.tidy _ content inside found
  · intro name inside found
    rcases List.mem_map.mp (closed.registered name inside) with ⟨extraction, present, rfl⟩
    rw [(steady.kept extraction present).2] at found
    rcases closed.blank _ inside found with ⟨reuse, other, there, rest⟩
    exact ⟨reuse, other, (steady.kept other there).1, rest⟩

/-- A component that is opened is clean, with reuse, if its shape is harmless. -/
theorem clean_of_opens {base : String}
    (opens : before.Opens base name schema .blank middle)
    (reuse : config.options.skipSchemaReuse = false) (harmless : Harmless document names schema) :
    Clean config document names middle name := by
  have added : ⟨base, schema, name⟩ ∈ middle.registry.generated :=
    opens.mem_generated_iff.mpr (Or.inr rfl)
  have closed : Closed config document names middle _ := closed_clean middle
  refine ⟨fun other => Clean config document names middle other ∨ other = name, ?_, Or.inr rfl⟩
  constructor
  · rintro other (old | rfl)
    · exact closed.registered other old
    · exact List.mem_map_of_mem added
  · rintro other content (old | rfl) found
    · exact (closed.tidy other content old found).mono fun _ => Or.inl
    · cases opens.found.symm.trans found
      exact ⟨Schema.enumFree_of_children_eq_nil rfl rfl,
        fun _ _ refers => absurd refers Schema.not_refersTo_blank⟩
  · rintro other (old | rfl) found
    · exact closed.blank other old found
    · exact ⟨reuse, _, added, rfl, harmless⟩

/-- A registered component may be given a tidy schema, and is clean then. -/
theorem clean_withComponent (registered : name ∈ after.registry.generated.map Extraction.name)
    (filled : content ≠ .blank)
    (tidy : Tidy names (fun other => Clean config document names after other ∨ other = name)
      .component content) {other : String}
    (clean : Clean config document names after other ∨ other = name) :
    Clean config document names (after.withComponent name content) other := by
  have closed : Closed config document names after _ := closed_clean after
  refine ⟨fun other => Clean config document names after other ∨ other = name, ?_, clean⟩
  constructor
  · rintro other (old | rfl)
    · exact closed.registered other old
    · exact registered
  · intro other value inside found
    rcases Members.get?_update_eq_some found with ⟨rfl, rfl⟩ | ⟨differs, found⟩
    · exact tidy
    · exact (closed.tidy other value (inside.resolve_right differs) found).mono fun _ => Or.inl
  · intro other inside found
    rcases Members.get?_update_eq_some found with ⟨rfl, same⟩ | ⟨differs, found⟩
    · exact absurd same.symm filled
    · exact closed.blank other (inside.resolve_right differs) found

/-- A component that is not clean may be given anything. -/
theorem clean_withComponent_of_not (other : ¬Clean config document names after name)
    {clean : String} (old : Clean config document names after clean) :
    Clean config document names (after.withComponent name content) clean := by
  have closed : Closed config document names after _ := closed_clean after
  refine ⟨_, ?_, old⟩
  constructor
  · exact closed.registered
  · intro name value inside found
    rcases Members.get?_update_eq_some found with ⟨rfl, _⟩ | ⟨_, found⟩
    · contradiction
    · exact closed.tidy name value inside found
  · intro name inside found
    rcases Members.get?_update_eq_some found with ⟨rfl, _⟩ | ⟨_, found⟩
    · contradiction
    · exact closed.blank name inside found

/-! ## The invariant -/

/-- What is extracted is not blank, whatever becomes of its children. -/
theorem withChildren_ne_blank (moves : schema.extractedAt policy role = true) (below : Children) :
    schema.hoisted.withChildren below ≠ .blank := by
  cases schema with
  | primitive leaf =>
      rintro same
      cases same
      cases role <;> simp [Schema.extractedAt, Schema.isAlternativeExtractable,
        Schema.isExtractable] at moves
  | _ => simp [Schema.hoisted, Schema.withChildren, Schema.blank]

/-- With reuse, components of harmless shapes are clean. -/
structure Cleaned (config : Config) (document : Document) (names : List String) (state : State) :
    Prop where
  named : Named state.registry
  initial : state.registry.initial = document.components.schemas
  clean : ∀ extraction ∈ state.registry.generated, config.options.skipSchemaReuse = false →
    Harmless document names extraction.shape →
      Clean config document names state extraction.name

/-- What a pass may visit: what it meets in surroundings of this kind, and what it has visited. -/
structure VisitableIn (document : Document) (policy : Policy) (role : Role) (schema : Schema) :
    Prop where
  met : MetIn document policy.inlineEnums schema ∨ Quiet policy role schema
  distinct : schema.DistinctKeys

/-- What becomes of a schema: where its visit leaves no enumeration in place, the references to
the names that are put there lead to clean components. -/
def Becomes (config : Config) (document : Document) (names : List String) (state : State)
    (policy : Policy) (role : Role) (schema result : Schema) : Prop :=
  Visited policy (fun name _ => Clears names policy role schema → name ∈ names →
    Clean config document names state name) role schema result

theorem VisitableIn.child {child : Schema} {edge : Edge}
    (visitable : VisitableIn document policy role schema)
    (below : (edge, child) ∈ schema.hoisted.children) :
    VisitableIn document policy edge.role child := by
  rcases visitable with ⟨met, distinct⟩
  rcases distinct.hoisted with ⟨_, _, each⟩
  exact ⟨met.imp (fun met => met.child below) fun quiet => quiet.child below,
    each edge child below⟩

/-- Only what the pass meets is extracted. -/
theorem VisitableIn.metIn (visitable : VisitableIn document policy role schema)
    (moves : schema.extractedAt policy role = true) : MetIn document policy.inlineEnums schema := by
  rcases visitable.met with met | ⟨stays, _⟩
  · exact met
  · simp [stays] at moves

theorem Becomes.later (steady : Steady before after)
    (becomes : Becomes config document names before policy role schema result) :
    Becomes config document names after policy role schema result :=
  becomes.mono fun _ _ clean clears listed => (clean clears listed).later steady

/-- A schema that stays becomes what its children become. -/
theorem Becomes.kept {state : State} {below : Children} (inline : schema.isReference = false)
    (stays : schema.extractedAt policy role = false)
    (related : Members.Related
      (fun edge => Becomes config document names state policy edge.role) schema.hoisted.children
      below) :
    Becomes config document names state policy role schema
      (schema.hoisted.withChildren below) := by
  refine Visited.kept inline stays (related.mono fun edge child other present becomes => ?_)
  exact becomes.mono fun _ _ clean clears => clean (clears.child present)

theorem Becomes.tidy {state : State}
    (becomes : Becomes config document names state policy role schema result)
    (clears : Clears names policy role schema) :
    Tidy names (Clean config document names state) role result :=
  Visited.tidy becomes clears fun _ _ clean => clean clears

theorem Cleaned.start (config : Config)
    (distinct : Members.Distinct document.components.schemas) :
    Cleaned config document names (Flatten.start config document) :=
  ⟨⟨distinct, by simp [Flatten.start, Registry.ofSchemas]⟩, rfl,
    by simp [Flatten.start, Registry.ofSchemas]⟩

theorem Cleaned.of_steady (cleaned : Cleaned config document names before)
    (steady : Steady before after) (named : Named after.registry)
    (initial : after.registry.initial = before.registry.initial)
    (generated : after.registry.generated = before.registry.generated) :
    Cleaned config document names after := by
  refine ⟨named, initial.trans cleaned.initial, ?_⟩
  rw [generated]
  exact fun extraction present reuse harmless =>
    (cleaned.clean extraction present reuse harmless).later steady

theorem Cleaned.opens {base : String} (cleaned : Cleaned config document names before)
    (opens : before.Opens base name schema .blank middle) :
    Cleaned config document names middle := by
  have steady := Steady.of_opens cleaned.named opens
  refine ⟨cleaned.named.opens opens, opens.initial.trans cleaned.initial, ?_⟩
  intro extraction present reuse harmless
  rcases opens.mem_generated_iff.mp present with old | rfl
  · exact (cleaned.clean extraction old reuse harmless).later steady
  · exact clean_of_opens opens reuse harmless

/-- When a component is closed, all that was clean is clean still. The component itself is clean if
its visit leaves no enumeration in place. -/
theorem Cleaned.closes {base : String} {below : Children}
    (visitable : VisitableIn document policy role schema)
    (moves : schema.extractedAt policy role = true)
    (avoids : MetIn document true schema → Avoids names schema)
    (opens : before.Opens base name schema .blank middle)
    (cleaned : Cleaned config document names after) (steady : Steady middle after)
    (related : Members.Related
      (fun edge => Becomes config document names after policy edge.role) schema.hoisted.children
      below) :
    Cleaned config document names (after.withComponent name (schema.hoisted.withChildren below)) ∧
      (Clears names policy role schema →
        Clean config document names
          (after.withComponent name (schema.hoisted.withChildren below)) name) := by
  rcases steady.kept _ (opens.mem_generated_iff.mpr (Or.inr rfl)) with ⟨added, held⟩
  have blank : Members.get? name after.registry.schemas = some .blank := held.trans opens.found
  have becomes : Becomes config document names after policy .component schema
      (schema.hoisted.withChildren below) :=
    Becomes.kept (Schema.isReference_of_extractedAt moves) rfl related
  have cleans : Clears names policy .component schema → ∀ other,
      Clean config document names after other ∨ other = name →
        Clean config document names
          (after.withComponent name (schema.hoisted.withChildren below)) other :=
    fun clears _ => clean_withComponent (List.mem_map_of_mem added)
      (withChildren_ne_blank moves below) ((becomes.tidy clears).mono fun _ => Or.inl)
  refine ⟨⟨cleaned.named.withComponent _ _, cleaned.initial, ?_⟩,
    fun clears => cleans clears.component name (Or.inr rfl)⟩
  intro extraction present reuse harmless
  have old := cleaned.clean extraction present reuse harmless
  by_cases own : Clean config document names after name
  · -- The open component was clean for its shape alone, and so it may be closed.
    obtain ⟨_, known, there, same, settled⟩ := (closed_clean after).blank name own blank
    cases cleaned.named.eq_of_name_eq there added same
    refine cleans ?_ _ (Or.inl old)
    have met := visitable.metIn moves
    cases counts : policy.inlineEnums with
    | true => exact ⟨avoids (counts ▸ met), Or.inl counts⟩
    | false =>
        rcases settled (counts ▸ met) with ⟨avoided, free⟩
        exact ⟨avoided, Or.inr free⟩
  · exact clean_withComponent_of_not own old

theorem Cleaned.withComponent_of_initial (cleaned : Cleaned config document names after)
    (original : name ∈ Members.keys after.registry.initial) (content : Schema) :
    Cleaned config document names (after.withComponent name content) ∧
      Steady after (after.withComponent name content) := by
  have steady : Steady after (after.withComponent name content) :=
    (Steady.of_registry rfl).withComponent fun generated =>
      cleaned.named.not_mem_initial_of_name generated original
  exact ⟨cleaned.of_steady steady (cleaned.named.withComponent name content) rfl rfl, steady⟩

/-! ## The account -/

/-- Where a visit leaves no enumeration in place, a shape that is shared is harmless. -/
theorem harmless_of_same (apart : KeepsApart document) {shape : Schema}
    (met : MetIn document policy.inlineEnums schema) (clears : Clears names policy role schema)
    (same : shape.same schema = true) : Harmless document names shape := by
  intro outside
  refine ⟨fun name listed refers => clears.1 name listed (refers.of_same same), ?_⟩
  rcases clears.2 with counts | free
  · exact apart _ _ outside (counts ▸ met) same
  · exact free.component.of_same same

/-- The account of the components that may be referred to from where enumerations count. -/
def clearing (config : Config) (document : Document) (names : List String)
    (fresh : ∀ name ∈ names, name ∉ Members.keys document.components.schemas)
    (avoids : ∀ schema, MetIn document true schema → Avoids names schema)
    (apart : config.options.skipSchemaReuse = false → KeepsApart document) : Account config where
  Inv := Cleaned config document names
  Later := Steady
  Fits := VisitableIn document
  Becomes := Becomes config document names
  later_refl _ := Steady.of_registry rfl
  later_trans := Steady.trans
  becomes_later := Becomes.later
  sameSchemas := by
    intro before after cleaned same
    have steady := Steady.of_registry same.registry
    exact ⟨cleaned.of_steady steady (same.registry ▸ cleaned.named) (by rw [same.registry])
      (by rw [same.registry]), steady⟩
  fits_child := VisitableIn.child
  reference _ _ role target := Visited.reference role target
  kept _ := Becomes.kept
  shared := by
    intro before after policy role schema derived name cleaned visitable moves reuse found shares
    have steady := Steady.of_registry shares.registry
    refine ⟨cleaned.of_steady steady (shares.registry ▸ cleaned.named) (by rw [shares.registry])
      (by rw [shares.registry]), steady, ?_⟩
    refine Visited.moved moves (fun clears listed => ?_) (Schema.same_refl visitable.distinct)
    rcases Registry.reusable?_eq_some found with ⟨known, present, _, same, rfl⟩ | original
    · have harmless := harmless_of_same (apart reuse) (visitable.metIn moves) clears same
      exact (cleaned.clean known present reuse harmless).later steady
    · rcases original with ⟨rfl, original, lookup, _⟩
      rw [cleaned.initial] at lookup
      exact absurd (Members.mem_keys_of_mem (Members.mem_of_get?_eq_some lookup))
        (fresh _ listed)
  opened cleaned _ _ _ opens := cleaned.opens opens
  closed := by
    intro before middle after policy role schema derived name below cleaned visitable moves opens
      ends later _ related
    rcases ends.closes visitable moves (avoids schema) opens later related with ⟨closed, clean⟩
    refine ⟨closed, ?_, Visited.moved moves (fun clears _ => clean clears)
      (Schema.same_refl visitable.distinct)⟩
    refine ((Steady.of_opens cleaned.named opens).trans later).withComponent fun generated => ?_
    rcases List.mem_map.mp generated with ⟨extraction, present, rfl⟩
    exact opens.fresh (cleaned.named.mem_keys_of_generated present)
  taken cleaned original := (cleaned.withComponent_of_initial
    (Members.mem_keys_of_mem (Members.mem_of_get?_eq_some original)) .blank).1
  returned := by
    intro before after name schema result cleaned original ends later grows
    have key := Members.mem_keys_of_mem (Members.mem_of_get?_eq_some original)
    rcases ends.withComponent_of_initial (grows.initial ▸ key) result with ⟨last, steady⟩
    exact ⟨last, ((cleaned.withComponent_of_initial key .blank).2.trans later).trans steady,
      Becomes.later steady⟩
  fits_again visitable becomes :=
    ⟨Or.inr (Visited.quiet (Policy.Within.refl _) becomes),
      Visited.distinctKeys becomes visitable.distinct⟩
  again := by
    intro state policy schema middle result _ first second
    rw [Visited.eq_of_quiet second (Visited.quiet (Policy.Within.refl policy) first)
      (Visited.still (Or.inl rfl) first)]
    exact first

end SchemaLift.Flatten
