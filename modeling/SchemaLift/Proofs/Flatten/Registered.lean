import SchemaLift.Proofs.Flatten.Growth

/-!
# The names that a pass registers

The component schemas of a document keep their names, their order and their nodes, and the names
that a pass registers stand behind them, in the order of the report (`flatten_registers`). Each name
is chosen among the keys that are there at the time, as near to the base name as it can be
(`Given`).
-/

namespace SchemaLift

/-- The schema keeps its node: what hoisting makes of it has the same schemas below it, each of
which may have changed. -/
def Schema.KeepsNode (schema result : Schema) : Prop :=
  ∃ below, Members.keys below = Members.keys schema.hoisted.children ∧
    schema.hoisted.withChildren below = result

theorem Schema.keepsNode_reference (target : Reference) :
    (Schema.reference target).KeepsNode (.reference target) :=
  ⟨[], rfl, rfl⟩

namespace Flatten

/-- Extractions whose names were given one after the other, each of them the nearest to its base
name that was neither a key from the beginning nor given before. -/
inductive Given (keys : List String) : List Extraction → Prop
  | nil : Given keys []
  | snoc {extractions : List Extraction} {extraction : Extraction}
      (given : Given keys extractions)
      (nearest : Registry.Nearest (keys ++ extractions.map Extraction.name) extraction.base
        extraction.name) :
      Given keys (extractions ++ [extraction])

/-- Whichever of them is looked at, its name was the nearest when it was given. -/
theorem Given.nearest_at {keys : List String} {extractions front back : List Extraction}
    {extraction : Extraction} (given : Given keys extractions)
    (split : extractions = front ++ extraction :: back) :
    Registry.Nearest (keys ++ front.map Extraction.name) extraction.base extraction.name := by
  induction given generalizing back with
  | nil => simp at split
  | @snoc extractions last given nearest ih =>
      rcases List.eq_nil_or_concat back with rfl | ⟨before, final, rfl⟩
      · obtain ⟨rfl, same⟩ := List.append_inj' split rfl
        cases same
        exact nearest
      · rw [List.concat_eq_append, ← List.cons_append, ← List.append_assoc] at split
        exact ih (List.append_inj_left' split rfl)

/-! ## The invariant -/

/-- What the names of the component schemas are, and how the report tells of them. -/
structure Registered (document : Document) (state : State) : Prop where
  named : Named state.registry
  initial : state.registry.initial = document.components.schemas
  registered : state.report.registered = state.registry.generated.map Extraction.name
  reused : state.report.reused ⊆ Members.keys state.registry.schemas
  extracted : state.registry.generated ⊆ state.extractions
  given : Given (Members.keys document.components.schemas) state.registry.generated

namespace Registered

variable {document : Document} {before after : State} {base name : String}
  {shape content : Schema}

theorem start (config : Config) (distinct : Members.Distinct document.components.schemas) :
    Registered document (Flatten.start config document) := by
  constructor
  · exact ⟨distinct, by simp [Flatten.start, Registry.ofSchemas]⟩
  · rfl
  · rfl
  · simp [Flatten.start]
  · simp [Flatten.start, Registry.ofSchemas]
  · exact Given.nil

theorem sameSchemas (state : Registered document before) (same : before.SameSchemas after) :
    Registered document after := by
  rcases state with ⟨named, initial, registered, reused, extracted, given⟩
  constructor <;> simpa only [same.registry, same.registered, same.reused, same.extractions]

theorem withComponent (state : Registered document before) (name : String) (content : Schema) :
    Registered document (before.withComponent name content) :=
  ⟨state.named.withComponent name content, state.initial, state.registered,
    by rw [keys_withComponent]; exact state.reused, state.extracted, state.given⟩

theorem shares (state : Registered document before)
    (found : before.registry.reusable? base shape = some name)
    (shares : before.Shares base name shape after) : Registered document after := by
  have there := state.named.mem_keys found
  rcases state with ⟨named, initial, registered, reused, extracted, given⟩
  constructor
  · rwa [shares.registry]
  · rwa [shares.registry]
  · rwa [shares.registered, shares.registry]
  · rw [shares.reused, shares.registry]
    exact List.append_subset.mpr ⟨reused, by simpa using there⟩
  · rw [shares.registry, shares.extractions]
    exact List.Subset.trans extracted (List.subset_append_left _ _)
  · rwa [shares.registry]

theorem opens (state : Registered document before)
    (opens : before.Opens base name shape content after) : Registered document after := by
  rcases state with ⟨named, initial, registered, reused, extracted, given⟩
  constructor
  · exact named.opens opens
  · exact opens.initial.trans initial
  · rw [opens.registered, opens.generated, registered]
    simp
  · rw [opens.reused, opens.schemas, Members.keys_append]
    exact List.Subset.trans reused (List.subset_append_left _ _)
  · rw [opens.generated, opens.extractions]
    exact List.append_subset.mpr ⟨List.Subset.trans extracted (List.subset_append_left _ _),
      List.subset_append_right _ _⟩
  · rw [opens.generated]
    apply Given.snoc given
    have nearest := before.registry.nearest_uniqueName base
    rwa [← opens.chosen, named.keys, initial] at nearest

end Registered

/-! ## The account -/

/-- The account of the names in a pass. All it says of the schemas is that components keep their
nodes. -/
def registering (config : Config) (document : Document) : Account config where
  Inv := Registered document
  Later _ _ := True
  Fits _ _ _ := True
  Becomes _ _ role schema result := role = .component → schema.KeepsNode result
  later_refl _ := trivial
  later_trans _ _ := trivial
  becomes_later _ := id
  sameSchemas state same := ⟨state.sameSchemas same, trivial⟩
  fits_child _ _ := trivial
  reference _ _ _ target _ := Schema.keepsNode_reference target
  kept _ _ _ related _ := ⟨_, related.keys_eq, rfl⟩
  shared := by
    intro before after policy role schema derived name state _ moves _ found shares
    refine ⟨state.shares found shares, trivial, ?_⟩
    rintro rfl
    simp [Schema.extractedAt] at moves
  opened state _ _ _ opens := state.opens opens
  closed := by
    intro before middle after policy role schema derived name below _ _ moves _ ends _ _ _
    refine ⟨ends.withComponent _ _, trivial, ?_⟩
    rintro rfl
    simp [Schema.extractedAt] at moves
  taken state _ := state.withComponent _ _
  returned _ _ _ ends _ _ := ⟨ends.withComponent _ _, trivial, id⟩
  fits_again _ _ := trivial
  again _ _ _ := by simp

/-- A pass over a document ends in a state that tells of its names. -/
theorem exists_registered (config : Config) {document : Document}
    (distinct : Members.Distinct document.components.schemas) :
    ∃ outcome after, document.flatten config = .ok outcome ∧
      (registering config document).Settles document outcome.document after ∧
        outcome.report = after.report ∧ outcome.extractions = after.extractions := by
  have own : document.Related (Keeps fun _ _ => True) document :=
    Document.related_self fun _ _ _ => trivial
  exact (registering config document).flatten (Registered.start config distinct) distinct own
    fun _ _ _ => trivial

section Settled

variable {config : Config} {document result : Document} {after : State}
  (settles : (registering config document).Settles document result after)

include settles

/-- After the pass the names are those from before and those registered. -/
theorem keys_of_settles :
    Members.keys result.components.schemas =
      Members.keys document.components.schemas ++ after.report.registered := by
  have state : Registered document after := settles.inv
  rw [settles.schemas, state.named.keys, state.initial, state.registered]

/-- A name that was registered was none before. -/
theorem not_mem_keys_of_settles {name : String} (registered : name ∈ after.report.registered) :
    name ∉ Members.keys document.components.schemas := by
  have state : Registered document after := settles.inv
  rw [← state.initial]
  exact state.named.not_mem_initial_of_name (state.registered ▸ registered)

/-- A name that was registered is the one nearest to the base name of an extraction. -/
theorem nearest_of_settles {front back : List String} {name : String}
    (split : after.report.registered = front ++ name :: back) :
    ∃ extraction ∈ after.extractions, extraction.name = name ∧
      Registry.Nearest (Members.keys document.components.schemas ++ front) extraction.base
        name := by
  have state : Registered document after := settles.inv
  rw [state.registered] at split
  rcases List.map_eq_append_iff.mp split with ⟨early, late, generated, rfl, later⟩
  rcases List.map_eq_cons_iff.mp later with ⟨extraction, rest, rfl, rfl, _⟩
  refine ⟨extraction, state.extracted ?_, rfl, state.given.nearest_at generated⟩
  simp [generated]

end Settled

/-- A pass over a document whose component schemas have different names, with any configuration,
leaves them in their order with their names and nodes, and adds the names of the report behind them.
Each of these was free when it was registered, and what was reused is the name of a component from
before the pass or of one that it registered. -/
theorem flatten_registers (config : Config) {document : Document}
    (distinct : Members.Distinct document.components.schemas) :
    ∃ outcome, document.flatten config = .ok outcome ∧
      Members.keys outcome.document.components.schemas =
        Members.keys document.components.schemas ++ outcome.report.registered ∧
      Members.Distinct outcome.document.components.schemas ∧
      (∀ front name back, outcome.report.registered = front ++ name :: back →
        name ∉ Members.keys document.components.schemas ++ front) ∧
      (∀ name schema, (name, schema) ∈ document.components.schemas →
        ∃ content, Members.get? name outcome.document.components.schemas = some content ∧
          schema.KeepsNode content) ∧
      ∀ name ∈ outcome.report.reused,
        name ∈ Members.keys outcome.document.components.schemas ∧
          (name ∈ Members.keys document.components.schemas ∨
            name ∈ outcome.report.registered) := by
  rcases exists_registered config distinct with ⟨outcome, after, run, settles, report, _⟩
  have state : Registered document after := settles.inv
  have keys := keys_of_settles settles
  rw [← report] at keys
  refine ⟨outcome, run, keys, settles.schemas ▸ state.named.distinct, ?_, ?_, ?_⟩
  · intro front name back split
    rw [report] at split
    rcases nearest_of_settles settles split with ⟨_, _, _, nearest⟩
    exact nearest.free
  · intro name schema present
    rcases settles.components with ⟨done, added, split, related⟩
    rcases related.get?_eq_some (distinct.get?_eq_some present) with ⟨content, found, keeps⟩
    refine ⟨content, ?_, keeps rfl⟩
    rw [settles.schemas, split, Members.get?_append, found, Option.some_or]
  · intro name present
    have there : name ∈ Members.keys outcome.document.components.schemas := by
      rw [settles.schemas]
      exact state.reused (report ▸ present)
    exact ⟨there, List.mem_append.mp (keys ▸ there)⟩

/-- The names of the shop's schemas, of which one is reused and others are added. -/
theorem shop_registers :
    Members.Distinct shop.components.schemas ∧
      ∃ outcome, shop.flatten {} = .ok outcome ∧
        Members.keys outcome.document.components.schemas =
          Members.keys shop.components.schemas ++ outcome.report.registered ∧
        Members.Distinct outcome.document.components.schemas ∧
        (∀ front name back, outcome.report.registered = front ++ name :: back →
          name ∉ Members.keys shop.components.schemas ++ front) ∧
        (∀ name schema, (name, schema) ∈ shop.components.schemas →
          ∃ content, Members.get? name outcome.document.components.schemas = some content ∧
            schema.KeepsNode content) ∧
        ∀ name ∈ outcome.report.reused,
          name ∈ Members.keys outcome.document.components.schemas ∧
            (name ∈ Members.keys shop.components.schemas ∨
              name ∈ outcome.report.registered) :=
  ⟨distinctKeys_shop.names, flatten_registers {} distinctKeys_shop.names⟩

end Flatten

end SchemaLift
