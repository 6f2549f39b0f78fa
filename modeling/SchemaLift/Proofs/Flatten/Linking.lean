import SchemaLift.Proofs.Flatten.Naming
import SchemaLift.Proofs.Flatten.Pointers

/-!
# Where references lead after a pass

A pass puts references to components in the place of schemas, and leaves all others. Those that it
puts lead to component schemas that are no references themselves (`Linked.targets`), and those that
it leaves are followed as before, since component schemas keep their references. So the only
references that can dangle after a pass, without having dangled before, are those whose component
has a slash in its name (`flatten_dangling`). Such a name is never made by a pass; the configuration
gives it.
-/

namespace SchemaLift

/-- The name has a slash only if its base has one, and then the configuration gives the base. -/
structure Extraction.NamedBy (config : Config) (extraction : Extraction) : Prop where
  slash : Text.holds '/' extraction.name = Text.holds '/' extraction.base
  given : Text.holds '/' extraction.base = true →
    ∃ name, (name, extraction.base) ∈ config.nameMappings

namespace Flatten

variable {config : Config} {document : Document}

/-! ## Pointers of visited schemas -/

/-- The references in what a visit makes of a schema are those of the schema, or lead to known
shapes. -/
theorem Visited.refersTo {policy : Policy} {known : String → Schema → Prop} {role : Role}
    {schema result : Schema} (visited : Visited policy known role schema result) {pointer : String}
    (refers : result.RefersTo pointer) :
    schema.RefersTo pointer ∨ ∃ name shape, known name shape ∧ pointer = Pointer.toSchema name := by
  induction schema using Schema.induction_hoisted generalizing role result with
  | step schema ih =>
      cases visited with
      | reference => exact Or.inl refers
      | moved _ registered =>
          cases refers with
          | here own => exact Or.inr ⟨_, _, registered, own.symm⟩
          | child present => simp [replacement, Schema.children] at present
      | kept inline _ visited =>
          rcases exists_refersTo_of_withChildren inline visited.keys_eq refers with
            ⟨edge, child, present, inside⟩
          rcases visited.exists_left present with ⟨original, there, becomes⟩
          exact (ih _ original there becomes inside).imp_left
            (refersTo_of_mem_children_hoisted there)

/-- A component schema stays the same reference, or stays something else. -/
theorem Visited.eq_or_inline {policy : Policy} {known : String → Schema → Prop}
    {schema result : Schema} (visited : Visited policy known .component schema result) :
    result = schema ∨ schema.isReference = false ∧ result.isReference = false := by
  cases visited with
  | reference => exact Or.inl rfl
  | kept inline =>
      apply Or.inr
      rw [Schema.isReference_withChildren, Schema.isReference_hoisted]
      exact ⟨inline, inline⟩
  | moved moves => simp [Schema.extractedAt] at moves

/-! ## The invariant -/

/-- A schema has been moved to the component of this name. -/
def Placed (state : State) (name : String) (_ : Schema) : Prop :=
  ∃ extraction ∈ state.extractions, extraction.name = name

/-- A pointer that stands in the document, or has been put there. -/
def Leads (document : Document) (state : State) (pointer : String) : Prop :=
  Schema.Shown pointer document.sightings ∨
    ∃ name shape, Placed state name shape ∧ pointer = Pointer.toSchema name

/-- What has been extracted can be found, and what has been registered refers to nothing else than
the document does. -/
structure Linked (config : Config) (document : Document) (state : State) : Prop where
  named : Named state.registry
  initial : state.registry.initial = document.components.schemas
  registered : ∀ known ∈ state.registry.generated, known ∈ state.extractions
  bases : ∀ extraction ∈ state.extractions, extraction.NamedBy config
  targets : ∀ extraction ∈ state.extractions,
    (∃ original, Members.get? extraction.name document.components.schemas = some original ∧
        original.isReference = false) ∨
      extraction.name ∈ state.registry.generated.map Extraction.name
  contents : ∀ name content, (name, content) ∈ state.registry.schemas →
    name ∈ state.registry.generated.map Extraction.name →
      content.isReference = false ∧
        ∀ pointer, content.RefersTo pointer → Leads document state pointer

theorem Placed.mono {before after : State} (later : before.extractions ⊆ after.extractions)
    {name : String} {shape : Schema} (placed : Placed before name shape) :
    Placed after name shape := by
  rcases placed with ⟨extraction, present, same⟩
  exact ⟨extraction, later present, same⟩

theorem Leads.mono {before after : State} (later : before.extractions ⊆ after.extractions)
    {pointer : String} (leads : Leads document before pointer) : Leads document after pointer := by
  rcases leads with shown | ⟨name, shape, placed, same⟩
  · exact Or.inl shown
  · exact Or.inr ⟨name, shape, placed.mono later, same⟩

namespace Linked

variable {before after : State} {name base : String} {schema content : Schema}

theorem start (config : Config) (distinct : document.DistinctKeys) :
    Linked config document (Flatten.start config document) := by
  constructor
  · exact ⟨distinct.names, by simp [Flatten.start, Registry.ofSchemas]⟩
  · rfl
  all_goals simp [Flatten.start, Registry.ofSchemas]

theorem sameSchemas (linked : Linked config document before) (same : before.SameSchemas after) :
    Linked config document after := by
  have leads : ∀ pointer, Leads document before pointer → Leads document after pointer :=
    fun _ => Leads.mono (by rw [same.extractions]; exact fun _ => id)
  rcases linked with ⟨named, initial, registered, bases, targets, contents⟩
  constructor
  · rwa [same.registry]
  · rwa [same.registry]
  · rwa [same.registry, same.extractions]
  · rwa [same.extractions]
  · rwa [same.registry, same.extractions]
  · rw [same.registry]
    intro name content present generated
    rcases contents name content present generated with ⟨inline, refers⟩
    exact ⟨inline, fun pointer inside => leads pointer (refers pointer inside)⟩

/-- A component can hold anything that refers to nothing else; those of the document can hold
anything at all. -/
theorem withComponent (linked : Linked config document before)
    (fits : name ∈ before.registry.generated.map Extraction.name →
      content.isReference = false ∧
        ∀ pointer, content.RefersTo pointer → Leads document before pointer) :
    Linked config document (before.withComponent name content) := by
  rcases linked with ⟨named, initial, registered, bases, targets, contents⟩
  constructor
  · exact named.withComponent name content
  · exact initial
  · exact registered
  · exact bases
  · exact targets
  · intro other value present generated
    rcases Members.mem_of_mem_update present with old | ⟨rfl, rfl⟩
    · exact contents other value old generated
    · exact fits generated

theorem opens (linked : Linked config document before) {derived : String}
    (opens : before.Opens (config.baseName schema derived).base name schema .blank after) :
    Linked config document after := by
  rcases linked with ⟨named, initial, registered, bases, targets, contents⟩
  have later : before.extractions ⊆ after.extractions := by
    rw [opens.extractions]
    exact List.subset_append_left _ _
  constructor
  · exact named.opens opens
  · exact opens.initial.trans initial
  · intro known present
    exact opens.mem_extractions_iff.mpr
      ((opens.mem_generated_iff.mp present).imp_left (registered known))
  · intro extraction present
    rcases opens.mem_extractions_iff.mp present with old | rfl
    · exact bases extraction old
    · constructor
      · rw [opens.chosen]
        exact Registry.holds_uniqueName (by decide) _ _
      · exact Config.mem_nameMappings_of_holds (by decide)
  · intro extraction present
    rw [opens.generated, List.map_append, List.mem_append]
    rcases opens.mem_extractions_iff.mp present with old | rfl
    · exact (targets extraction old).imp_right Or.inl
    · exact Or.inr (Or.inr List.mem_cons_self)
  · intro other value present generated
    rcases opens.registered_or present generated with ⟨old, kept⟩ | ⟨rfl, rfl⟩
    · rcases contents other value old kept with ⟨inline, refers⟩
      exact ⟨inline, fun pointer inside => (refers pointer inside).mono later⟩
    · exact ⟨rfl, fun pointer inside => absurd inside Schema.not_refersTo_blank⟩

theorem shares (linked : Linked config document before) {derived : String}
    (inline : schema.isReference = false)
    (found : before.registry.reusable? (config.baseName schema derived).base schema = some name)
    (shares : before.Shares (config.baseName schema derived).base name schema after) :
    Linked config document after := by
  rcases linked with ⟨named, initial, registered, bases, targets, contents⟩
  have later : before.extractions ⊆ after.extractions := by
    rw [shares.extractions]
    exact List.subset_append_left _ _
  constructor
  · rwa [shares.registry]
  · rwa [shares.registry]
  · rw [shares.registry]
    exact fun known present => later (registered known present)
  · intro extraction present
    rw [shares.extractions, List.mem_append, List.mem_singleton] at present
    rcases present with old | rfl
    · exact bases extraction old
    · constructor
      · rcases Registry.reusable?_eq_some found with ⟨known, inside, base, _, same⟩ | ⟨same, _⟩
        · have own := (bases known (registered known inside)).slash
          rwa [same, base] at own
        · exact congrArg (Text.holds '/') same
      · exact Config.mem_nameMappings_of_holds (by decide)
  · rw [shares.registry]
    intro extraction present
    rw [shares.extractions, List.mem_append, List.mem_singleton] at present
    rcases present with old | rfl
    · exact targets extraction old
    · rcases Registry.reusable?_eq_some found with ⟨known, inside, _, _, same⟩ | ⟨rfl, there⟩
      · exact Or.inr (List.mem_map.mpr ⟨known, inside, same⟩)
      · rcases there with ⟨original, lookup, same⟩
        rw [initial] at lookup
        exact Or.inl ⟨original, lookup, (Schema.isReference_of_same same).symm.trans inline⟩
  · rw [shares.registry]
    intro other value present generated
    rcases contents other value present generated with ⟨own, refers⟩
    exact ⟨own, fun pointer inside => (refers pointer inside).mono later⟩

end Linked

/-! ## The account -/

/-- What is visited has become in a state refers to nothing that does not lead anywhere. -/
theorem Visited.leads {state : State} {policy : Policy} {role : Role} {schema result : Schema}
    (visited : Visited policy (Placed state) role schema result) (meets : Meets document schema)
    {pointer : String} (refers : result.RefersTo pointer) : Leads document state pointer :=
  (visited.refersTo refers).imp_left meets.shown

/-- The account of a pass that keeps track of where references lead. -/
def linking (config : Config) (document : Document) : Account config where
  Inv := Linked config document
  Later before after := before.extractions ⊆ after.extractions
  Fits := Visitable config document
  Becomes state policy role schema result := Visited policy (Placed state) role schema result
  later_refl _ := List.Subset.refl _
  later_trans := List.Subset.trans
  becomes_later later visited := visited.mono fun _ _ placed => placed.mono later
  sameSchemas linked same :=
    ⟨linked.sameSchemas same, by rw [same.extractions]; exact List.Subset.refl _⟩
  fits_child := Visitable.child
  reference _ _ role target := Visited.reference role target
  kept _ inline stays visited := Visited.kept inline stays visited
  shared := by
    intro before after policy role schema derived name linked fits moves _ found shares
    have placed : Placed after name schema := by
      refine ⟨⟨(config.baseName schema derived).base, schema, name⟩, ?_, rfl⟩
      rw [shares.extractions]
      exact List.mem_append_right _ List.mem_cons_self
    refine ⟨linked.shares (Schema.isReference_of_extractedAt moves) found shares, ?_,
      Visited.moved moves placed (Schema.same_refl fits.distinct)⟩
    rw [shares.extractions]
    exact List.subset_append_left _ _
  opened linked _ _ _ opens := linked.opens opens
  closed := by
    intro before middle after policy role schema derived name below _ fits moves opens ends
      later _ related
    have inline := Schema.isReference_of_extractedAt moves
    have visited : Visited policy (Placed after) .component schema
        (schema.hoisted.withChildren below) :=
      Visited.kept inline rfl related
    have added : ⟨(config.baseName schema derived).base, schema, name⟩ ∈ after.extractions := by
      apply later
      rw [opens.extractions]
      exact List.mem_append_right _ List.mem_cons_self
    refine ⟨ends.withComponent fun _ => ⟨?_, fun pointer refers => ?_⟩, ?_,
      Visited.moved moves ⟨_, added, rfl⟩ (Schema.same_refl fits.distinct)⟩
    · rw [Schema.isReference_withChildren, Schema.isReference_hoisted, inline]
    · exact visited.leads (fits.meets moves) refers
    · refine List.Subset.trans ?_ later
      rw [opens.extractions]
      exact List.subset_append_left _ _
  taken linked original := linked.withComponent fun generated =>
    absurd (Members.mem_keys_of_mem (Members.mem_of_get?_eq_some original))
      (linked.named.not_mem_initial_of_name generated)
  returned := by
    intro before after name schema result linked original ends later grows
    refine ⟨ends.withComponent fun generated => ?_, later, fun visited => visited⟩
    apply absurd _ (ends.named.not_mem_initial_of_name generated)
    rw [grows.initial]
    exact Members.mem_keys_of_mem (Members.mem_of_get?_eq_some original)
  fits_again fits visited :=
    ⟨fits.parts, Or.inr (visited.quiet (Policy.Within.refl _)), visited.distinctKeys fits.distinct⟩
  again := by
    intro state policy schema middle result _ first second
    rw [second.eq_of_quiet (first.quiet (Policy.Within.refl policy)) (first.still (Or.inl rfl))]
    exact first

end Flatten

end SchemaLift
