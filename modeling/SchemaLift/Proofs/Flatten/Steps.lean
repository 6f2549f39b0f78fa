import SchemaLift.Proofs.Document.References
import SchemaLift.Proofs.Flatten.Registry

/-!
# What the steps of a pass do

`Yields step before post` says that a step runs to its end from a state, and that its result and the
state it leaves satisfy a condition. It is proved along the sequence of a step, with one rule for
each way to put steps together and one for each step that changes the state.

A check of a reference reports its pointer or does nothing (`State.Checks`). An extraction either
shares a component (`State.Shares`) or opens a new one, whose place is blank until its inside has
been flattened (`State.Opens`); `yields_extract` says which, and is the only rule about extraction
that is used.
-/

namespace SchemaLift.Flatten

variable {α β : Type}

/-- The step runs to its end, and its result and the state afterwards satisfy a condition. -/
def Yields (step : Step α) (before : State) (post : α → State → Prop) : Prop :=
  ∃ result after, step.run before = .ok (result, after) ∧ post result after

theorem yields_pure {result : α} {before : State} {post : α → State → Prop}
    (holds : post result before) : Yields (pure result) before post :=
  ⟨result, before, rfl, holds⟩

theorem yields_bind {step : Step α} {next : α → Step β} {before : State}
    {middle : α → State → Prop} {post : β → State → Prop} (first : Yields step before middle)
    (rest : ∀ result after, middle result after → Yields (next result) after post) :
    Yields (step >>= next) before post := by
  rcases first with ⟨result, between, run, holds⟩
  rcases rest result between holds with ⟨last, after, later, ends⟩
  refine ⟨last, after, ?_, ends⟩
  rw [StateT.run_bind, run]
  exact later

theorem Yields.mono {step : Step α} {before : State} {post wider : α → State → Prop}
    (yields : Yields step before post)
    (widen : ∀ result after, post result after → wider result after) :
    Yields step before wider := by
  rcases yields with ⟨result, after, run, holds⟩
  exact ⟨result, after, run, widen result after holds⟩

/-- What two conditions say of a step is said of the same run. -/
theorem Yields.and {step : Step α} {before : State} {post other : α → State → Prop}
    (left : Yields step before post) (right : Yields step before other) :
    Yields step before fun result after => post result after ∧ other result after := by
  rcases left with ⟨result, after, run, holds⟩
  rcases right with ⟨_, _, again, also⟩
  cases run.symm.trans again
  exact ⟨result, after, run, holds, also⟩

theorem yields_get {next : State → Step β} {before : State} {post : β → State → Prop}
    (rest : Yields (next before) before post) : Yields (get >>= next) before post := by
  have reads : Yields get before fun result after => result = before ∧ after = before :=
    ⟨before, before, rfl, rfl, rfl⟩
  apply yields_bind reads
  rintro result after ⟨rfl, rfl⟩
  exact rest

theorem yields_modify {change : State → State} {before : State} (post : Unit → State → Prop)
    (holds : post () (change before)) : Yields (modify change) before post :=
  ⟨(), change before, rfl, holds⟩

/-! ## Reports -/

namespace State

/-- The states have the same component request bodies and responses. -/
structure SameBodies (before after : State) : Prop where
  requestBodies : after.requestBodies = before.requestBodies
  responses : after.responses = before.responses

/-- The states have the same component schemas, and the same has been extracted. -/
structure SameSchemas (before after : State) : Prop where
  registry : after.registry = before.registry
  extractions : after.extractions = before.extractions
  registered : after.report.registered = before.report.registered
  reused : after.report.reused = before.report.reused

/-- The states have the same component schemas, extractions and reports. -/
structure SameWork (before after : State) : Prop where
  registry : after.registry = before.registry
  extractions : after.extractions = before.extractions
  report : after.report = before.report

/-- The states differ at most in what has been logged. -/
structure Logs (before after : State) : Prop extends SameBodies before after,
    SameWork before after

/-- A pointer that leads nowhere has been reported. -/
structure Reports (pointer : String) (before after : State) : Prop
    extends SameBodies before after where
  registry : after.registry = before.registry
  extractions : after.extractions = before.extractions
  report : after.report = before.report.noteUnresolved pointer

/-- A pointer has been looked up: nothing is done if it is found, and it is reported if not. -/
def Checks (found : Prop) (pointer : String) (before after : State) : Prop :=
  found ∧ after = before ∨ ¬found ∧ before.Reports pointer after

theorem SameBodies.refl (state : State) : SameBodies state state :=
  ⟨rfl, rfl⟩

theorem SameBodies.trans {first second third : State} (left : SameBodies first second)
    (right : SameBodies second third) : SameBodies first third :=
  ⟨right.requestBodies.trans left.requestBodies, right.responses.trans left.responses⟩

theorem SameWork.sameSchemas {before after : State} (same : before.SameWork after) :
    before.SameSchemas after :=
  ⟨same.registry, same.extractions, by rw [same.report], by rw [same.report]⟩

theorem Reports.sameSchemas {pointer : String} {before after : State}
    (reports : before.Reports pointer after) : before.SameSchemas after := by
  have lists : (before.report.noteUnresolved pointer).registered = before.report.registered ∧
      (before.report.noteUnresolved pointer).reused = before.report.reused := by
    unfold Report.noteUnresolved
    split <;> exact ⟨rfl, rfl⟩
  exact ⟨reports.registry, reports.extractions, by rw [reports.report, lists.1],
    by rw [reports.report, lists.2]⟩

theorem Reports.logs {pointer : String} {first second third : State}
    (reports : first.Reports pointer second) (logs : second.Logs third) :
    first.Reports pointer third :=
  ⟨reports.toSameBodies.trans logs.toSameBodies, logs.registry.trans reports.registry,
    logs.extractions.trans reports.extractions, logs.report.trans reports.report⟩

end State

theorem yields_note (event : Log.Event) (before : State) :
    Yields (note event) before fun _ after => before.Logs after :=
  yields_modify (fun _ after => before.Logs after) ⟨⟨rfl, rfl⟩, rfl, rfl, rfl⟩

theorem yields_noteUnresolved (pointer : String) (before : State) :
    Yields (noteUnresolved pointer) before fun _ after => before.Reports pointer after := by
  apply yields_get
  dsimp only
  split
  · refine yields_bind (yields_modify (fun _ after => before.Reports pointer after) ?_) ?_
    · exact ⟨⟨rfl, rfl⟩, rfl, rfl, rfl⟩
    · intro _ between reports
      exact (yields_note _ between).mono fun _ _ logs => reports.logs logs
  · next listed =>
      refine yields_pure ⟨State.SameBodies.refl before, rfl, rfl, ?_⟩
      rw [Report.noteUnresolved, if_pos (by simpa using listed)]

/-- A check leaves the state as it is, or it reports the pointer. -/
theorem yields_check (known : State → Bool) (pointer : String) (before : State) :
    Yields (do if !known (← get) then noteUnresolved pointer) before
      fun _ after => before.Checks (known before = true) pointer after := by
  apply yields_get
  split
  · next lost =>
      refine (yields_noteUnresolved pointer before).mono fun _ _ reports => Or.inr ⟨?_, reports⟩
      simpa using lost
  · next found => exact yields_pure (Or.inl ⟨by simpa using found, rfl⟩)

/-- A check that only looks at pointers to a category of components. -/
theorem yields_check_found {lead pointer : String} (known : String → State → Bool)
    {names : List String} {before : State}
    (looks : ∀ name, known name before = true ↔ name ∈ names) :
    Yields (do
      if let some name := Text.dropLead? lead pointer then
        if !known name (← get) then noteUnresolved pointer) before fun _ after =>
          before.Checks (Pointer.Found lead names pointer) pointer after := by
  cases cut : Text.dropLead? lead pointer with
  | none => exact yields_pure (Or.inl ⟨by simp [Pointer.Found, cut], rfl⟩)
  | some name =>
      refine (yields_check (known name) pointer before).mono fun _ after checks => ?_
      rwa [looks, ← Pointer.found_iff cut] at checks

theorem yields_checkSchema (target : Reference) (before : State) :
    Yields (checkSchema target) before fun _ after =>
      before.Checks (Pointer.Found Pointer.schemas (Members.keys before.registry.schemas)
        target.pointer) target.pointer after :=
  yields_check_found (fun name state => state.registry.contains name) fun _ =>
    Registry.contains_iff

theorem yields_checkRequestBody (target : Reference) (before : State) :
    Yields (checkRequestBody target) before fun _ after =>
      before.Checks (Pointer.Found Pointer.requestBodies (Members.keys before.requestBodies)
        target.pointer) target.pointer after :=
  yields_check_found (fun name state => Members.has name state.requestBodies) fun _ =>
    Members.has_iff_mem_keys

theorem yields_checkResponse (target : Reference) (before : State) :
    Yields (checkResponse target) before fun _ after =>
      before.Checks (Pointer.Found Pointer.responses (Members.keys before.responses)
        target.pointer) target.pointer after :=
  yields_check_found (fun name state => Members.has name state.responses) fun _ =>
    Members.has_iff_mem_keys

/-! ## Taking out and putting back -/

/-- A schema that is there can be taken out. -/
theorem yields_takeOut {name : String} {schema : Schema} {before : State}
    (found : Members.get? name before.registry.schemas = some schema) :
    Yields (takeOut name) before fun result after =>
      result = schema ∧
        after =
          { before with
            registry :=
              { before.registry with
                schemas := Members.update name .blank before.registry.schemas } } := by
  apply yields_get
  simp only [Registry.take?, found, Option.map_some]
  exact yields_bind (yields_modify _ rfl) fun _ after same => yields_pure ⟨rfl, same⟩

theorem yields_putBack (name : String) (schema : Schema) (before : State) :
    Yields (putBack name schema) before fun _ after =>
      after = { before with registry := before.registry.restore name schema } :=
  yields_modify _ rfl

/-! ## Extraction -/

namespace State

/-- A shape is folded into the component of a name. -/
structure Shares (base name : String) (shape : Schema) (before after : State) : Prop
    extends SameBodies before after where
  registry : after.registry = before.registry
  extractions : after.extractions = before.extractions ++ [⟨base, shape, name⟩]
  registered : after.report.registered = before.report.registered
  reused : after.report.reused = before.report.reused ++ [name]
  unresolved : after.report.unresolved = before.report.unresolved

/-- A shape gets a component of its own, in which some schema stands. -/
structure Opens (base name : String) (shape content : Schema) (before after : State) : Prop
    extends SameBodies before after where
  fresh : name ∉ Members.keys before.registry.schemas
  chosen : name = before.registry.uniqueName base
  schemas : after.registry.schemas = before.registry.schemas ++ [(name, content)]
  initial : after.registry.initial = before.registry.initial
  generated : after.registry.generated = before.registry.generated ++ [⟨base, shape, name⟩]
  extractions : after.extractions = before.extractions ++ [⟨base, shape, name⟩]
  registered : after.report.registered = before.report.registered ++ [name]
  reused : after.report.reused = before.report.reused
  unresolved : after.report.unresolved = before.report.unresolved

theorem Opens.logs {base name : String} {shape content : Schema} {before middle after : State}
    (opens : before.Opens base name shape content middle) (logs : middle.Logs after) :
    before.Opens base name shape content after :=
  ⟨opens.toSameBodies.trans logs.toSameBodies, opens.fresh, opens.chosen,
    by rw [logs.registry, opens.schemas], by rw [logs.registry, opens.initial],
    by rw [logs.registry, opens.generated], logs.extractions.trans opens.extractions,
    by rw [logs.report, opens.registered], by rw [logs.report, opens.reused],
    by rw [logs.report, opens.unresolved]⟩

section Opens

variable {base name : String} {shape content : Schema} {before after : State}

theorem Opens.found (opens : before.Opens base name shape content after) :
    Members.get? name after.registry.schemas = some content := by
  rw [opens.schemas, Members.get?_append_of_not_mem _ opens.fresh]
  simp [Members.get?_cons]

theorem Opens.mem_generated_iff (opens : before.Opens base name shape content after)
    {extraction : Extraction} :
    extraction ∈ after.registry.generated ↔
      extraction ∈ before.registry.generated ∨ extraction = ⟨base, shape, name⟩ := by
  rw [opens.generated, List.mem_append, List.mem_singleton]

theorem Opens.mem_extractions_iff (opens : before.Opens base name shape content after)
    {extraction : Extraction} :
    extraction ∈ after.extractions ↔
      extraction ∈ before.extractions ∨ extraction = ⟨base, shape, name⟩ := by
  rw [opens.extractions, List.mem_append, List.mem_singleton]

/-- A registered component has been there before, and was registered, or it is the one that has
been opened. -/
theorem Opens.registered_or (opens : before.Opens base name shape content after) {other : String}
    {value : Schema} (present : (other, value) ∈ after.registry.schemas)
    (generated : other ∈ after.registry.generated.map Extraction.name) :
    (other, value) ∈ before.registry.schemas ∧
        other ∈ before.registry.generated.map Extraction.name ∨
      other = name ∧ value = content := by
  rw [opens.schemas, List.mem_append, List.mem_singleton] at present
  rcases present with old | new
  · rw [opens.generated, List.map_append, List.mem_append] at generated
    rcases generated with early | late
    · exact Or.inl ⟨old, early⟩
    · cases List.mem_singleton.mp late
      exact absurd (Members.mem_keys_of_mem old) opens.fresh
  · cases new
    exact Or.inr ⟨rfl, rfl⟩

end Opens

/-- Component schemas have at most been added. -/
structure Grows (before after : State) : Prop where
  initial : after.registry.initial = before.registry.initial
  schemas : ∃ added, after.registry.schemas = before.registry.schemas ++ added

theorem Grows.of_registry {before after : State} (registry : after.registry = before.registry) :
    Grows before after :=
  ⟨by rw [registry], [], by rw [registry, List.append_nil]⟩

theorem Grows.refl (state : State) : Grows state state :=
  Grows.of_registry rfl

theorem Grows.trans {first second third : State} (left : Grows first second)
    (right : Grows second third) : Grows first third := by
  rcases left.schemas with ⟨added, schemas⟩
  rcases right.schemas with ⟨later, more⟩
  exact ⟨right.initial.trans left.initial, added ++ later, by
    rw [more, schemas, List.append_assoc]⟩

theorem Grows.get?_eq_some {before after : State} (grows : Grows before after) {name : String}
    {schema : Schema} (found : Members.get? name before.registry.schemas = some schema) :
    Members.get? name after.registry.schemas = some schema := by
  rcases grows.schemas with ⟨added, schemas⟩
  rw [schemas, Members.get?_append, found, Option.some_or]

theorem Grows.keys_subset {before after : State} (grows : Grows before after) :
    Members.keys before.registry.schemas ⊆ Members.keys after.registry.schemas := by
  rcases grows.schemas with ⟨added, schemas⟩
  rw [schemas, Members.keys_append]
  exact List.subset_append_left _ _

/-- The state with a schema put in the place of a component. -/
def withComponent (state : State) (name : String) (schema : Schema) : State :=
  { state with registry := state.registry.restore name schema }

/-- What is put in the place of an opened component stands behind what was there before. -/
theorem Opens.grows_withComponent {base name : String} {shape content : Schema}
    {before middle after : State} (opens : before.Opens base name shape content middle)
    (grows : middle.Grows after) (result : Schema) :
    before.Grows (after.withComponent name result) := by
  rcases grows.schemas with ⟨added, schemas⟩
  refine ⟨grows.initial.trans opens.initial, (name, result) :: added, ?_⟩
  simp only [State.withComponent, Registry.restore, schemas, opens.schemas, List.append_assoc,
    List.singleton_append]
  exact Members.update_append_cons opens.fresh content result added

end State

theorem yields_share (candidate : Naming.Candidate) (derived name : String) (schema : Schema)
    (before : State) :
    Yields (share candidate derived name schema) before fun _ after =>
      before.Shares candidate.base name schema after := by
  refine yields_bind (yields_note _ before) fun _ between logs => yields_modify _ ?_
  exact ⟨⟨logs.requestBodies, logs.responses⟩, logs.registry, by rw [← logs.extractions],
    by rw [logs.report], by rw [← logs.report], by rw [logs.report]⟩

theorem yields_register (candidate : Naming.Candidate) (derived : String) (schema : Schema)
    (before : State) :
    Yields (register candidate derived schema) before fun name after =>
      before.Opens candidate.base name schema schema after := by
  apply yields_get
  dsimp only
  have fresh := before.registry.uniqueName_not_mem candidate.base
  have add : ∀ logged, before.Logs logged → ∀ name,
      name = before.registry.uniqueName candidate.base →
      Yields (do
        modify fun state =>
          { state with
            registry := state.registry.register candidate.base name schema
            report := { state.report with registered := state.report.registered ++ [name] }
            extractions := state.extractions ++ [⟨candidate.base, schema, name⟩] }
        note (.schemaExtracted name derived)
        pure name) logged fun name after =>
          before.Opens candidate.base name schema schema after := by
    rintro logged logs name rfl
    refine yields_bind (yields_modify (fun _ after =>
      before.Opens candidate.base (before.registry.uniqueName candidate.base) schema schema after)
      ?_) fun _ added opens => ?_
    · refine ⟨⟨logs.requestBodies, logs.responses⟩, fresh, rfl, ?_, ?_, ?_, ?_, ?_, ?_, ?_⟩
      · rw [← logs.registry] at fresh
        simp only [Registry.register]
        rw [← logs.registry, Members.set_of_not_mem fresh]
      · simp only [Registry.register, logs.registry]
      · simp only [Registry.register, logs.registry]
      · simp only [logs.extractions]
      all_goals simp only [logs.report]
    · refine yields_bind (yields_note _ added) fun _ after later => yields_pure ?_
      exact opens.logs later
  split
  · exact yields_bind (yields_note _ before) fun _ logged logs => add logged logs _ rfl
  · exact add before ⟨State.SameBodies.refl before, rfl, rfl, rfl⟩ _ rfl

/-- An extraction shares the component that the registry knows, or else opens a new one, in which
the inside is put once it is flattened. -/
theorem yields_extract {config : Config} {schema : Schema} {derived : String}
    {inside : String → Step Schema} {before : State} {post : Schema → State → Prop}
    (shared : ∀ name after, config.options.skipSchemaReuse = false →
      before.registry.reusable? (config.baseName schema derived).base schema = some name →
      before.Shares (config.baseName schema derived).base name schema after →
      post (replacement name schema) after)
    (opened : ∀ name middle,
      (config.options.skipSchemaReuse = false →
        before.registry.reusable? (config.baseName schema derived).base schema = none) →
      before.Opens (config.baseName schema derived).base name schema .blank middle →
      Yields (inside name) middle fun content after =>
        post (replacement name schema) (after.withComponent name content)) :
    Yields (extract config schema derived inside) before post := by
  apply yields_get
  dsimp only
  split
  · next name found =>
      split at found
      · contradiction
      · next reuse =>
          apply yields_bind (yields_share _ derived name schema before)
          intro _ after shares
          exact yields_pure (shared name after (by simpa using reuse) found shares)
  · next found =>
      apply yields_bind (yields_register _ derived schema before)
      intro name added opens
      apply yields_bind (yields_takeOut opens.found)
      rintro _ middle ⟨_, same⟩
      have blanked : before.Opens (config.baseName schema derived).base name schema .blank
          middle := by
        have schemas : middle.registry.schemas = before.registry.schemas ++ [(name, .blank)] := by
          rw [same, opens.schemas, Members.update_append_cons opens.fresh]
        subst same
        exact ⟨⟨opens.requestBodies, opens.responses⟩, opens.fresh, opens.chosen, schemas,
          opens.initial, opens.generated, opens.extractions, opens.registered, opens.reused,
          opens.unresolved⟩
      have holds := opened name middle (fun reuse => by simpa [reuse] using found) blanked
      apply yields_bind holds
      intro content after ends
      apply yields_bind (yields_putBack name content after)
      rintro _ last rfl
      exact yields_pure ends

/-- A schema is extracted or worked on where it is, as its position says. -/
theorem yields_place {config : Config} {policy : Policy} {role : Role} {schema : Schema}
    {derived : String} {inside : String → Step Schema} {before : State}
    {post : Schema → State → Prop}
    (kept : schema.extractedAt policy role = false → Yields (inside derived) before post)
    (moved : schema.extractedAt policy role = true →
      Yields (extract config schema derived inside) before post) :
    Yields (place config policy role schema derived inside) before post := by
  unfold place
  split
  · next extracted => exact moved extracted
  · next extracted => exact kept (by simpa using extracted)

end SchemaLift.Flatten
