import SchemaLift.Proofs.Audit.Inline
import SchemaLift.Proofs.Document.Mentions
import SchemaLift.Proofs.Flatten.Tally

/-!
# The schemas that a pass extracts

If no option says more, a pass extracts the inline schemas that an audit finds, and in the same
order, since it extracts a schema before those below it (`Tally.extracting`). When shapes are shared
there are fewer extractions, because what is below a shared shape is not visited.

A request body that an operation refers to is visited for the operation, before the audit comes to
it. That only brings its extractions forward: the body is quiet afterwards, and nothing is extracted
when its turn comes (`Tally.owing`).
-/

namespace SchemaLift.Flatten

/-- From one state to another no more schemas have been extracted than these, and exactly these if
no shape is shared. -/
def State.Extracts (config : Config) (nodes : List Schema) (before after : State) : Prop :=
  ∃ added, after.extractions = before.extractions ++ added ∧ added.length ≤ nodes.length ∧
    (config.options.skipSchemaReuse = true → added.map Extraction.shape = nodes)

namespace State.Extracts

variable {config : Config} {first second third : State} {front back : List Schema}

theorem of_extractions (same : second.extractions = first.extractions) :
    first.Extracts config [] second :=
  ⟨[], by simpa using same, Nat.le_refl 0, fun _ => rfl⟩

theorem append (left : first.Extracts config front second)
    (right : second.Extracts config back third) :
    first.Extracts config (front ++ back) third := by
  rcases left with ⟨early, extractions, few, same⟩
  rcases right with ⟨late, more, fewer, others⟩
  refine ⟨early ++ late, ?_, ?_, fun each => ?_⟩
  · rw [more, extractions, List.append_assoc]
  · simp only [List.length_append]
    omega
  · rw [List.map_append, same each, others each]

theorem of_checks {found : Prop} {pointer : String} (checks : first.Checks found pointer second) :
    first.Extracts config [] second := by
  rcases checks with ⟨_, rfl⟩ | ⟨_, reports⟩
  · exact of_extractions rfl
  · exact of_extractions reports.extractions

/-- A shape that is shared counts for all schemas below it. -/
theorem of_shares {base name : String} {shape : Schema}
    (shares : first.Shares base name shape second) (reuse : config.options.skipSchemaReuse = false)
    (below : List Schema) : first.Extracts config (shape :: below) second :=
  ⟨[⟨base, shape, name⟩], shares.extractions, by simp, by simp [reuse]⟩

/-- What is extracted below an opened component comes after it. -/
theorem of_opens {base name : String} {shape content : Schema}
    (opens : first.Opens base name shape content second)
    (below : second.Extracts config back third) (result : Schema) :
    first.Extracts config (shape :: back) (third.withComponent name result) := by
  have own : first.Extracts config [shape] second :=
    ⟨[⟨base, shape, name⟩], opens.extractions, Nat.le_refl 1, fun _ => rfl⟩
  exact own.append below

end State.Extracts

/-! ## Schemas -/

variable {config : Config}

theorem extracts_visitChildren {children : Children}
    (each : ∀ edge child, (edge, child) ∈ children → ∀ derived location before,
      Yields (visitSchema config {} edge.role false derived child) before fun _ after =>
        before.Extracts config (inlineOf (child.sightings location edge.role)) after)
    (parent : String) (location : Location) (before : State) :
    Yields (visitChildren config {} parent children) before fun _ after =>
      before.Extracts config (inlineOf (children.sightings location)) after := by
  induction children generalizing before with
  | nil => exact yields_pure (.of_extractions rfl)
  | cons entry rest ih =>
      rcases entry with ⟨edge, child⟩
      rw [visitChildren_cons, Children.sightings_cons, inlineOf_append]
      refine yields_bind (each edge child List.mem_cons_self _ (location ++ edge.segments) before) ?_
      intro result middle first
      refine yields_bind (ih (fun edge child present =>
        each edge child (List.mem_cons_of_mem _ present)) middle) ?_
      intro results after second
      exact yields_pure (first.append second)

/-- The visit of a schema extracts the inline schemas that an audit sees in it. -/
theorem extracts_visitSchema (role : Role) (derived : String) (location : Location)
    (schema : Schema) (before : State) :
    Yields (visitSchema config {} role false derived schema) before fun _ after =>
      before.Extracts config (inlineOf (schema.sightings location role)) after := by
  induction schema using Schema.induction_hoisted generalizing role derived location before with
  | step schema ih =>
      cases inline : schema.isReference with
      | true =>
          obtain ⟨target, rfl⟩ := Schema.exists_eq_reference inline
          rw [(quiet_reference {} role target).inlineOf_eq_nil, visitSchema]
          refine yields_bind (yields_checkSchema target before) fun _ _ checks => ?_
          exact yields_pure (.of_checks checks)
      | false =>
          have below : ∀ parent before,
              Yields (visitChildren config {} parent schema.hoisted.children) before
                fun _ after => before.Extracts config
                  (inlineOf (schema.children.sightings location)) after := by
            intro parent before
            rw [← inlineOf_hoisted]
            exact extracts_visitChildren (fun edge child present => ih edge child present edge.role)
              parent location before
          rw [inlineOf_sightings, visitSchema_eq config {} role derived inline]
          refine yields_place (fun stays => ?_) fun moves => ?_
          · rw [if_neg (by simp [stays]), List.nil_append]
            exact yields_bind (below derived before) fun _ _ extracts => yields_pure extracts
          rw [if_pos moves, List.singleton_append]
          refine yields_extract (fun name after reuse _ shares => .of_shares shares reuse _)
            fun name middle _ opens => ?_
          exact yields_bind (below name middle) fun _ _ extracts =>
            yields_pure (.of_opens opens extracts _)

/-! ## Components -/

section Components

variable {extracted : String → Schema → List Schema}
  (each : ∀ name schema before,
    Yields (visitSchema config (policyFor config false) .component false name schema) before
      fun _ after => before.Extracts config (extracted name schema) after)

include each

/-- The visit of a component extracts what the visit of its schema does, and leaves the other
components alone. -/
theorem extracts_visitComponent {name : String} {schema : Schema} {before : State}
    (found : Members.get? name before.registry.schemas = some schema) :
    Yields (visitComponent config (policyFor config false) name) before fun _ after =>
      before.Extracts config (extracted name schema) after ∧
        ∀ other content, other ≠ name →
          Members.get? other before.registry.schemas = some content →
            Members.get? other after.registry.schemas = some content := by
  apply yields_bind (yields_takeOut found)
  rintro taken middle ⟨rfl, rfl⟩
  refine yields_bind ((each name taken _).and
    (yields_visitSchema config _ .component name taken _)) ?_
  rintro result visited ⟨extracts, _, grows, _⟩
  apply (yields_putBack name result visited).mono
  rintro _ _ rfl
  refine ⟨extracts, fun other content differs old => ?_⟩
  refine (Members.get?_update_of_ne differs _ _).trans (grows.get?_eq_some ?_)
  exact (Members.get?_update_of_ne differs _ _).trans old

theorem extracts_visitComponents {schemas : List (String × Schema)}
    (distinct : Members.Distinct schemas) {before : State}
    (holds : ∀ name schema, (name, schema) ∈ schemas →
      Members.get? name before.registry.schemas = some schema) :
    Yields (visitComponents config (Members.keys schemas)) before fun _ after =>
      before.Extracts config (schemas.flatMap fun entry => extracted entry.1 entry.2) after := by
  induction schemas generalizing before with
  | nil => exact yields_pure (.of_extractions rfl)
  | cons entry rest ih =>
      rcases entry with ⟨name, schema⟩
      have names := List.nodup_cons.mp distinct
      rw [List.flatMap_cons]
      apply yields_bind (extracts_visitComponent each (holds name schema List.mem_cons_self))
      rintro _ middle ⟨first, others⟩
      refine (ih names.2 fun other content present => ?_).mono fun _ _ second =>
        first.append second
      refine others other content ?_ (holds other content (List.mem_cons_of_mem _ present))
      rintro rfl
      exact names.1 (Members.mem_keys_of_mem present)

end Components

/-! ## Request bodies that have been visited -/

/-- Nothing is to be extracted from the schemas of a request body that has been visited. -/
theorem quiet_visitRequestBody (base : String) (body : RequestBody) (before : State) :
    Yields (visitRequestBody config base body) before fun result _ =>
      ∀ enums schema, ContentMentions isForm enums schema result.content →
        Quiet (policyFor config enums) .slot schema := by
  have own : body.Related (Keeps fun _ _ => True) body :=
    ⟨contentRelated_self fun _ _ _ => trivial, rfl⟩
  have pending : body.Related ((leaving config).ledger.Pending before) body :=
    own.mono fun _ _ _ keeps => ⟨trivial, Or.inl keeps.1⟩
  refine ((leaving config).ledger.visitRequestBody base trivial pending).mono ?_
  rintro result after ⟨_, done⟩ enums schema mentions
  rcases done.content.exists_mentioned mentions with ⟨_, _, _, _, quiet⟩
  exact quiet

/-! ## Tallies -/

/-- Nothing is inline in a content of quiet schemas. -/
theorem inlineOf_contentSightings_eq_nil {counts : String → Bool} {content : Option Content}
    (quiet : ∀ enums schema, ContentMentions counts enums schema content → Quiet {} .slot schema)
    (location : Location) : inlineOf (contentSightings location content) = [] := by
  cases content with
  | none => rfl
  | some members =>
      rw [contentSightings, inlineOf_flatMap, List.flatMap_eq_nil_iff]
      rintro ⟨name, media⟩ listed
      cases found : media.schema with
      | none => rfl
      | some schema =>
          exact (quiet _ schema ⟨members, rfl, name, media, listed, found, rfl⟩).inlineOf_eq_nil _

/-- Nothing is inline in the content of a request body that has been visited. -/
theorem yields_visitRequestBody (plain : ∀ counts, policyFor config counts = {}) (base : String)
    (body : RequestBody) (before : State) :
    Yields (visitRequestBody config base body) before fun result _ =>
      ∀ location, inlineOf (contentSightings location result.content) = [] := by
  apply (quiet_visitRequestBody base body before).mono
  intro result after quiet
  exact inlineOf_contentSightings_eq_nil fun enums schema mentions =>
    plain enums ▸ quiet enums schema mentions

/-- The tally of what is extracted. -/
def extracting (config : Config) (plain : ∀ counts, policyFor config counts = {}) :
    Tally config where
  Adds before seen after :=
    before.Extracts config (inlineOf seen) after ∧ before.SameBodies after ∧ before.Grows after
  nil state := ⟨.of_extractions rfl, State.SameBodies.refl state, State.Grows.refl state⟩
  append first second := by
    refine ⟨?_, first.2.1.trans second.2.1, first.2.2.trans second.2.2⟩
    rw [inlineOf_append]
    exact first.1.append second.1
  reports reports := ⟨.of_extractions reports.extractions, reports.toSameBodies,
    State.Grows.of_registry reports.registry⟩
  schema counts derived location schema before := by
    rw [plain]
    refine ((extracts_visitSchema .slot derived location schema before).and
      (yields_visitSchema config {} .slot derived schema before)).mono fun _ _ ends => ?_
    exact ⟨ends.1, ends.2.1, ends.2.2.1⟩

/-- How many schemas of request bodies are inline. -/
def owed (bodies : List (String × RefOr RequestBody)) : Nat :=
  (inlineOf (bodies.flatMap fun body =>
    bodySightings ["components", "requestBodies", body.1] body.2)).length

/-- From one state to another, and counting what is inline in request bodies, as many schemas or
fewer have been extracted, and exactly as many if no shape is shared. -/
structure Pays (config : Config) (count : Nat) (before after : State) : Prop where
  grows : before.Grows after
  responses : after.responses = before.responses
  most : after.extractions.length + owed after.requestBodies ≤
    before.extractions.length + owed before.requestBodies + count
  all : config.options.skipSchemaReuse = true →
    after.extractions.length + owed after.requestBodies =
      before.extractions.length + owed before.requestBodies + count

theorem State.Extracts.pays {before after : State} {nodes : List Schema}
    (extracts : before.Extracts config nodes after) (bodies : before.SameBodies after)
    (grows : before.Grows after) : Pays config nodes.length before after := by
  rcases extracts with ⟨added, extractions, few, same⟩
  refine ⟨grows, bodies.responses, ?_, fun each => ?_⟩
  · rw [extractions, bodies.requestBodies, List.length_append]
    omega
  · rw [extractions, bodies.requestBodies, List.length_append, ← same each, List.length_map]
    omega

/-- What was inline in a request body is inline no more when a quiet body takes its place. -/
theorem owed_set {bodies : Members (RefOr RequestBody)} {name : String} {body result : RequestBody}
    (found : Members.get? name bodies = some (.item body))
    (quiet : ∀ location, inlineOf (contentSightings location result.content) = []) :
    owed (Members.set name (.item result) bodies) +
        (inlineOf (contentSightings ["components", "requestBodies", name] body.content)).length =
      owed bodies := by
  rw [owed, owed, inlineOf_flatMap, inlineOf_flatMap]
  have all := Members.length_flatMap_set found (.item result) fun body =>
    inlineOf (bodySightings ["components", "requestBodies", body.1] body.2)
  simpa only [bodySightings, quiet, List.length_nil, Nat.add_zero] using all

/-- The tally of how much is extracted. -/
def owing (config : Config) (plain : ∀ counts, policyFor config counts = {}) : Tally config where
  Adds before seen after := Pays config (inlineOf seen).length before after
  nil state := State.Extracts.pays (.of_extractions rfl) (State.SameBodies.refl state)
    (State.Grows.refl state)
  append first second := by
    rw [inlineOf_append, List.length_append]
    refine ⟨first.grows.trans second.grows, second.responses.trans first.responses, ?_,
      fun each => ?_⟩
    · have := first.most
      have := second.most
      omega
    · have := first.all each
      have := second.all each
      omega
  reports reports := State.Extracts.pays (.of_extractions reports.extractions) reports.toSameBodies
    (State.Grows.of_registry reports.registry)
  schema counts derived location schema before :=
    ((extracting config plain).schema counts derived location schema before).mono
      fun _ _ ends => ends.1.pays ends.2.1 ends.2.2

/-- The visit of a body for an operation that refers to it only brings its extractions forward. -/
theorem owing_visitBodyReference (plain : ∀ counts, policyFor config counts = {})
    (target : Reference) : (owing config plain).Skips target := by
  intro base before
  apply yields_get
  split
  · next name body reached =>
      have found := get?_of_bodyAt? reached
      have visit := (extracting config plain).visitRequestBody
        ["components", "requestBodies", name] base body before
      refine yields_bind (visit.and (yields_visitRequestBody plain base body before)) ?_
      rintro result middle ⟨⟨extracts, bodies, grows⟩, quiet⟩
      refine yields_modify _ ?_
      have paid := extracts.pays bodies grows
      rw [← bodies.requestBodies] at found
      have less := owed_set found quiet
      refine ⟨grows.trans (State.Grows.of_registry rfl), paid.responses, ?_, fun each => ?_⟩
      · have := paid.most
        simp only [inlineOf_nil, List.length_nil]
        omega
      · have := paid.all each
        simp only [inlineOf_nil, List.length_nil]
        omega
  · exact (yields_noteUnresolved target.pointer before).mono fun _ _ reports =>
      (owing config plain).reports reports

end SchemaLift.Flatten
