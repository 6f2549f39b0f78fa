import SchemaLift.Proofs.Document.RoundTrip
import SchemaLift.Proofs.Flatten.Complete

/-!
# Flattened documents, written and read again

A pass leaves a document as it is read (`Flattens.sound`) and makes no node degenerate
(`Flattens.regular`). So what passes make of a document that is read can be read again exactly when
none of its nodes is degenerate (`reread_iff_regular`), and then another pass over what is read
finds nothing to do (`flatten_reread_complete`).
-/

namespace SchemaLift.Flatten

variable {policy : Policy} {known : String → Schema → Prop} {role : Role} {schema result : Schema}

/-- Only a truth value becomes one. -/
theorem Visited.isBoolean (visited : Visited policy known role schema result)
    (plain : schema.isBoolean = false) : result.isBoolean = false := by
  cases visited with
  | reference => rfl
  | moved => rfl
  | kept => cases schema <;> first | rfl | exact plain

/-- A visit leaves a schema as it is read. -/
theorem Visited.asRead (visited : Visited policy known role schema result)
    (asRead : schema.AsRead) : result.AsRead := by
  induction schema using Schema.induction_hoisted generalizing role result with
  | step schema ih =>
      cases visited with
      | reference => exact asRead
      | moved =>
          rcases asRead with ⟨node, _⟩
          refine Schema.AsRead.intro ⟨?_, ?_, ?_, trivial, ?_⟩ ?_
          · rintro _ ⟨⟩
            exact node.not_mem_extensions
          · rintro _ ⟨⟩
          · rintro _ ⟨⟩
          · rintro _ ⟨⟩
          · rintro _ _ ⟨⟩
      | kept _ _ visited =>
          rcases asRead.hoisted with ⟨node, each⟩
          apply Schema.AsRead.intro
          · apply node.withChildren visited.keys_eq
            intro child present
            rcases visited.exists_left present with ⟨original, there, fits⟩
            exact fits.isBoolean (node.undeclared original there)
          · intro edge child below
            rw [Schema.children_withChildren visited.keys_eq] at below
            rcases visited.exists_left below with ⟨original, present, fits⟩
            exact ih edge original present fits (each edge original present)

theorem Meets.asRead {document : Document} (sound : document.Sound)
    (meets : Meets document schema) : schema.AsRead := by
  induction meets with
  | mentioned inside => exact (sound.mentioned _ _ inside).asRead
  | component present => exact (sound.components _ _ present).asRead
  | child _ below ih =>
      rcases ih.hoisted with ⟨_, each⟩
      exact each _ _ below

/-- What a document is flattened to is as it is read, if the document is. -/
theorem Flattens.sound {config : Config} {document result : Document}
    (flattens : Flattens config known document result) (sound : document.Sound) : result.Sound := by
  have distinct := flattens.distinctKeys sound.distinctKeys
  constructor
  · exact flattens.outside.settled sound.settled
  · exact distinct.maps
  · intro enums schema inside
    rcases flattens.outside.exists_mentioned inside with ⟨original, there, _, visited⟩
    exact ⟨visited.asRead (sound.mentioned enums original there).asRead,
      distinct.mentioned enums schema inside⟩
  · exact flattens.names
  · intro name content present
    rcases flattens.origins name content present with ⟨shape, shapeKnown, _, _, visited⟩
    rcases flattens.contents name shape shapeKnown with ⟨meets, _⟩
    exact ⟨visited.asRead (meets.asRead sound), distinct.components name content present⟩

/-! ## Nodes that are degenerate -/

theorem isDegenerate_bare (schema : Schema) (lifted : Bool) :
    (schema.bare lifted).isDegenerate = schema.isDegenerate := by
  cases lifted <;> cases schema <;> rfl

/-- A combination is degenerate if it combines nothing. -/
theorem isDegenerate_composed_iff {shape : ComposedSchema} :
    (Schema.composed shape).isDegenerate = true ↔
      ∀ keyword ∈ [Keyword.allOf, .anyOf, .oneOf], ∀ index,
        .member keyword index ∉ Members.keys (Schema.composed shape).children := by
  simp only [← Children.members_eq_nil_iff]
  simp [Schema.isDegenerate, Schema.children, Children.members_ofMembers, and_assoc]

theorem isDegenerate_hoisted (schema : Schema) :
    schema.hoisted.isDegenerate = schema.isDegenerate := by
  cases schema with
  | composed shape =>
      rw [Bool.eq_iff_iff, isDegenerate_composed_iff, ← Schema.keys_children_hoisted]
      exact isDegenerate_composed_iff
  | _ => rfl

/-- Whether a node is degenerate depends on what stands at its edges only by the edges. -/
theorem isDegenerate_withChildren {below : Children}
    (edges : Members.keys below = Members.keys schema.children) :
    (schema.withChildren below).isDegenerate = schema.isDegenerate := by
  have same := Schema.children_withChildren edges
  cases schema with
  | composed shape =>
      have keys := congrArg Members.keys same
      rw [edges] at keys
      rw [Bool.eq_iff_iff, isDegenerate_composed_iff, ← keys]
      exact isDegenerate_composed_iff
  | object shape =>
      rcases shape with ⟨named, required, additional, discriminator, metadata⟩
      have properties : below.properties.isEmpty = named.isEmpty := by
        rw [Bool.eq_iff_iff, List.isEmpty_iff, Children.properties_eq_nil_iff, edges,
          ← Children.properties_eq_nil_iff]
        simp [Schema.children]
      have undeclared : .undeclared ∈ Members.keys below ↔
          ∃ value, additional = .values value := by
        rw [edges]
        cases additional <;> simp [Schema.children, Children.ofAdditional, Members.keys,
          Children.ofProperties]
      cases additional with
      | values value =>
          have present := undeclared.mpr ⟨value, rfl⟩
          rcases Members.exists_get?_eq_some_of_mem_keys present with ⟨other, found⟩
          simp [Schema.withChildren, Schema.isDegenerate, found, properties]
      | _ =>
          have absent := Members.get?_eq_none_iff.mpr (mt undeclared.mp (by simp))
          simp [Schema.withChildren, Schema.isDegenerate, absent, properties]
  | _ => rfl

theorem regular_hoisted (regular : schema.Regular) : schema.hoisted.Regular := by
  rcases Schema.regular_iff.mp regular with ⟨own, below⟩
  refine Schema.regular_iff.mpr ⟨(isDegenerate_hoisted schema).trans own, ?_⟩
  intro edge child present
  rcases Schema.exists_bare_of_mem_children_hoisted present with ⟨original, lifted, inside, rfl⟩
  rcases Schema.regular_iff.mp (below edge original inside) with ⟨node, each⟩
  exact Schema.regular_iff.mpr ⟨(isDegenerate_bare original lifted).trans node, by simpa using each⟩

/-- A visit makes no node degenerate. -/
theorem Visited.regular (visited : Visited policy known role schema result)
    (regular : schema.Regular) : result.Regular := by
  induction schema using Schema.induction_hoisted generalizing role result with
  | step schema ih =>
      cases visited with
      | reference => exact regular
      | moved =>
          refine Schema.regular_iff.mpr ⟨rfl, ?_⟩
          rintro _ _ ⟨⟩
      | kept _ _ visited =>
          rcases Schema.regular_iff.mp (regular_hoisted regular) with ⟨own, each⟩
          apply Schema.regular_iff.mpr
          constructor
          · exact (isDegenerate_withChildren visited.keys_eq).trans own
          · intro edge child below
            rw [Schema.children_withChildren visited.keys_eq] at below
            rcases visited.exists_left below with ⟨original, present, fits⟩
            exact ih edge original present fits (each edge original present)

theorem Meets.regular {document : Document} (regular : document.Regular)
    (meets : Meets document schema) : schema.Regular := by
  rcases Document.regular_iff.mp regular with ⟨mentioned, components⟩
  induction meets with
  | mentioned inside => exact mentioned _ _ inside
  | component present => exact components _ _ present
  | child _ below ih =>
      rcases Schema.regular_iff.mp (regular_hoisted ih) with ⟨_, each⟩
      exact each _ _ below

/-- A pass over a document without degenerate nodes leaves none. -/
theorem Flattens.regular {config : Config} {document result : Document}
    (flattens : Flattens config known document result) (regular : document.Regular) :
    result.Regular := by
  rcases Document.regular_iff.mp regular with ⟨mentioned, _⟩
  apply Document.regular_iff.mpr
  constructor
  · intro enums schema inside
    rcases flattens.outside.exists_mentioned inside with ⟨original, there, _, visited⟩
    exact visited.regular (mentioned enums original there)
  · intro name content present
    rcases flattens.origins name content present with ⟨shape, shapeKnown, _, _, visited⟩
    rcases flattens.contents name shape shapeKnown with ⟨meets, _⟩
    exact visited.regular (meets.regular regular)

/-! ## Documents that can be reached -/

/-- A document that is read from a value in which no object has a key twice, or that passes make of
such a document. -/
inductive Reached : Document → Prop
  | read {value : Json} {document : Document} (distinct : value.DistinctKeys)
      (read : Document.ofJson value = .ok document) : Reached document
  | flattened {config : Config} {document : Document} {outcome : Outcome}
      (reached : Reached document) (run : document.flatten config = .ok outcome) :
      Reached outcome.document

theorem Reached.sound {document : Document} (reached : Reached document) : document.Sound := by
  induction reached with
  | read distinct read => exact Document.sound_of_ofJson distinct read
  | @flattened config document outcome _ run sound =>
      rcases exists_flattens config sound.distinctKeys with ⟨found, known, again, flattens⟩
      cases run.symm.trans again
      exact flattens.sound sound

/-! ## What is read again -/

/-- What is written of a document that can be reached is read as an equal document exactly when no
node of its schemas is degenerate, and then the same is written of that. So it is with a schema that
is read. -/
theorem reread_iff_regular :
    (∀ document, Reached document →
      ((∃ back, Document.ofJson document.toJson = .ok back ∧ (document == back) = true) ↔
        document.Regular) ∧
      (document.Regular →
        ∃ back, Document.ofJson document.toJson = .ok back ∧ back.toJson = document.toJson)) ∧
    ∀ value schema, value.DistinctKeys → Schema.ofJson value = .ok schema →
      ((∃ back, Schema.ofJson schema.toJson = .ok back ∧ (schema == back) = true) ↔
        schema.Regular) ∧
      (schema.Regular →
        ∃ back, Schema.ofJson schema.toJson = .ok back ∧ back.toJson = schema.toJson) := by
  constructor
  · intro document reached
    have sound := reached.sound
    refine ⟨⟨?_, ?_⟩, ?_⟩
    · rintro ⟨back, read, same⟩
      exact Document.regular_of_same sound read same
    · intro regular
      obtain ⟨back, read, same, _⟩ := Document.exists_of_regular sound regular
      exact ⟨back, read, same⟩
    · intro regular
      obtain ⟨back, read, _, again, _⟩ := Document.exists_of_regular sound regular
      exact ⟨back, read, again⟩
  · intro value schema distinct read
    rcases Schema.sound_of_ofJson distinct read with ⟨asRead, distinct⟩
    refine ⟨Schema.ofJson_toJson_iff asRead distinct, fun regular => ?_⟩
    exact ⟨schema, Schema.ofJson_toJson asRead distinct regular, rfl⟩

namespace Pets

/-- A pet with an owner, which is an inline schema. -/
def pet : Json :=
  .object
    [("type", .string "object"),
      ("properties", .object
        [("owner", .object
          [("properties", .object [("name", .object [("type", .string "string")])])])])]

/-- A document with the schema of a pet. -/
def value : Json :=
  .object
    [("openapi", .string "3.0.1"),
      ("components", .object [("schemas", .object [("Pet", pet)])])]

theorem distinctKeys_pet : pet.DistinctKeys := by
  have text : ∀ text, (Json.string text).DistinctKeys := fun _ =>
    Json.distinctKeys_of_parts_eq_nil rfl
  simp [pet, ← Json.distinctMap_iff_distinctKeys, Json.distinctMap_cons_iff, Json.distinctMap_nil,
    text]

theorem distinctKeys_value : value.DistinctKeys := by
  have text : ∀ text, (Json.string text).DistinctKeys := fun _ =>
    Json.distinctKeys_of_parts_eq_nil rfl
  simp [value, ← Json.distinctMap_iff_distinctKeys, Json.distinctMap_cons_iff, Json.distinctMap_nil,
    text, distinctKeys_pet]

end Pets

open Pets in
/-- The document of a pet can be reached when its owner has been extracted, and has no degenerate
nodes then; nor has the schema of a pet. -/
theorem regular_pets :
    (∃ document outcome, Document.ofJson value = .ok document ∧ document.flatten {} = .ok outcome ∧
      outcome.report.registered = ["Pet_owner"] ∧ Reached outcome.document ∧
      outcome.document.Regular ∧
      ∃ back, Document.ofJson outcome.document.toJson = .ok back ∧
        back.toJson = outcome.document.toJson) ∧
    pet.DistinctKeys ∧ ∃ schema, Schema.ofJson pet = .ok schema ∧ schema.Regular ∧
      ∃ back, Schema.ofJson schema.toJson = .ok back ∧ back.toJson = schema.toJson := by
  constructor
  · have evaluated : ((Document.ofJson value).toOption.any fun document =>
        (document.flatten {}).toOption.any fun outcome =>
          (Document.ofJson outcome.document.toJson).toOption.any fun back =>
            outcome.report.registered == ["Pet_owner"] && outcome.document == back) = true := by
      decide +kernel
    simp only [any_toOption_iff, Bool.and_eq_true, beq_iff_eq] at evaluated
    rcases evaluated with ⟨document, read, outcome, run, back, again, registered, same⟩
    have reached := (Reached.read distinctKeys_value read).flattened run
    rcases reread_iff_regular.1 outcome.document reached with ⟨equal, written⟩
    have regular := equal.mp ⟨back, again, same⟩
    exact ⟨document, outcome, read, run, registered, reached, regular, written regular⟩
  · have evaluated : ((Schema.ofJson pet).toOption.any fun schema =>
        (Schema.ofJson schema.toJson).toOption.any fun back => schema == back) = true := by
      decide +kernel
    simp only [any_toOption_iff] at evaluated
    rcases evaluated with ⟨schema, read, back, again, same⟩
    rcases reread_iff_regular.2 pet schema distinctKeys_pet read with ⟨equal, written⟩
    have regular := equal.mp ⟨back, again, same⟩
    exact ⟨distinctKeys_pet, schema, read, regular, written regular⟩

/-! ## Passes over what is read again -/

/-- A document that is read from a value can be flattened, with any configuration. If none of its
nodes is degenerate, then what is written of the result can be read again, the audit finds no inline
schema in what is read, and another pass over it registers nothing and reuses nothing. -/
theorem flatten_reread_complete (config : Config) {value : Json} {document : Document}
    (distinct : value.DistinctKeys) (read : Document.ofJson value = .ok document) :
    ∃ outcome, document.flatten config = .ok outcome ∧
      (document.Regular →
        ∃ back second, Document.ofJson outcome.document.toJson = .ok back ∧
          back.inlineLocations = [] ∧ back.flatten config = .ok second ∧
          second.report.registered = [] ∧ second.report.reused = []) := by
  have sound := Document.sound_of_ofJson distinct read
  rcases exists_flattens config sound.distinctKeys with ⟨outcome, known, run, flattens⟩
  refine ⟨outcome, run, fun regular => ?_⟩
  obtain ⟨back, again, _, _, schemas, mentioned⟩ :=
    Document.exists_of_regular (flattens.sound sound) (flattens.regular regular)
  -- Whatever is read stands in the result of the pass, and is quiet there.
  have quiet : ∀ (weaker : Policy) enums schema, weaker.Within (policyFor config enums) →
      back.Mentions enums schema → Quiet weaker .slot schema := by
    intro weaker enums schema within inside
    rcases flattens.outside.exists_mentioned (mentioned enums schema inside) with
      ⟨original, _, _, visited⟩
    exact visited.quiet within
  have components : ∀ (weaker : Policy), weaker.inlineEnums = false →
      (weaker.parts = true → config.options.refactorAllOf = true) →
      ∀ name content, (name, content) ∈ back.components.schemas →
        Quiet weaker .component content := by
    intro weaker enums parts name content present
    exact flattens.quiet_components enums parts (schemas ▸ present)
  obtain ⟨second, rerun, registered, reused, _⟩ := exists_revisits config
    (schemas ▸ flattens.names)
    (Document.related_self fun enums schema inside =>
      quiet (policyFor config enums) enums schema (Policy.Within.refl _) inside)
    (components (policyFor config false) rfl id)
  refine ⟨back, second, again, ?_, rerun, registered, reused⟩
  apply inlineLocations_eq_nil
  · exact fun enums schema inside => quiet {} enums schema (Policy.default_within _) inside
  · exact components {} rfl (by simp)

open Pets in
/-- The document of a pet can be flattened, and passes over what is read again find nothing to
do. -/
theorem flatten_reread_pets :
    value.DistinctKeys ∧ ∃ document outcome back second, Document.ofJson value = .ok document ∧
      document.Regular ∧ document.flatten {} = .ok outcome ∧
      Document.ofJson outcome.document.toJson = .ok back ∧ back.inlineLocations = [] ∧
      back.flatten {} = .ok second ∧ second.report.registered = [] ∧ second.report.reused = [] := by
  have evaluated : ((Document.ofJson value).toOption.any fun document =>
      (Document.ofJson document.toJson).toOption.any fun back => document == back) = true := by
    decide +kernel
  simp only [any_toOption_iff] at evaluated
  rcases evaluated with ⟨document, read, copy, reread, same⟩
  have sound := Document.sound_of_ofJson distinctKeys_value read
  have regular := Document.regular_of_same sound reread same
  obtain ⟨outcome, run, complete⟩ := flatten_reread_complete {} distinctKeys_value read
  obtain ⟨back, second, again, none, rerun, registered, reused⟩ := complete regular
  exact ⟨distinctKeys_value, document, outcome, back, second, read, regular, run, again, none,
    rerun, registered, reused⟩

/-- A document with a combination of nothing, which holds a schema as a member that it does not
interpret. -/
def listing : Json :=
  .object
    [("openapi", .string "3.0.1"), ("paths", .object []),
      ("components", .object
        [("schemas", .object
          [("List", .object
            [("allOf", .array []),
              ("items", .object
                [("type", .string "object"),
                  ("properties", .object [("id", .object [("type", .string "string")])])])])])])]

/-- The combination is written without its keyword and read as an array, so that there is an inline
schema in it, which another pass extracts. -/
theorem flatten_reread_listing :
    listing.DistinctKeys ∧ ∃ document outcome back second,
      Document.ofJson listing = .ok document ∧ document.flatten {} = .ok outcome ∧
      Document.ofJson outcome.document.toJson = .ok back ∧
      back.inlineLocations = ["/components/schemas/List/items"] ∧
      back.flatten {} = .ok second ∧ second.report.registered = ["List_inner"] := by
  have text : ∀ text, (Json.string text).DistinctKeys := fun _ =>
    Json.distinctKeys_of_parts_eq_nil rfl
  have nothing : (Json.array []).DistinctKeys := Json.distinctKeys_of_parts_eq_nil rfl
  have distinct : listing.DistinctKeys := by
    simp [listing, ← Json.distinctMap_iff_distinctKeys, Json.distinctMap_cons_iff,
      Json.distinctMap_nil, text, nothing]
  have evaluated : ((Document.ofJson listing).toOption.any fun document =>
      (document.flatten {}).toOption.any fun outcome =>
        (Document.ofJson outcome.document.toJson).toOption.any fun back =>
          (back.flatten {}).toOption.any fun second =>
            back.inlineLocations == ["/components/schemas/List/items"] &&
              second.report.registered == ["List_inner"]) = true := by
    decide +kernel
  simp only [any_toOption_iff, Bool.and_eq_true, beq_iff_eq] at evaluated
  rcases evaluated with ⟨document, read, outcome, run, back, again, second, rerun, none, registered⟩
  exact ⟨distinct, document, outcome, back, second, read, run, again, none, rerun, registered⟩

end SchemaLift.Flatten
