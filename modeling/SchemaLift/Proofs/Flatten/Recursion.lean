import SchemaLift.Proofs.Flatten.Trends

/-!
# The recursion through the registry

A schema that is extracted is stored in the registry, and what is visited next is not the schema
itself but whatever the registry holds under the new name. The pass recurses on the structure of
schemas instead. Here the other recursion is written down (`walk`), as one that may go too deep or
find a name without a schema. It does neither: from every state it ends, and it does what the visit
of the schema does (`endsIn_walk`), because the name that is taken out is the one under which the
schema was stored right before. So a pass has an outcome for every document
(`flatten_terminates`).
-/

namespace SchemaLift.Flatten

/-- A step of a pass that need not come to its end; it has no value when it is cut off. -/
abbrev Walk (α : Type) := StateT State (ExceptT MissingSchema Option) α

/-- A step that comes to its end, as a walk. -/
def ended {α : Type} (step : Step α) : Walk α :=
  fun state => (some (step.run state) : Option (Except MissingSchema (α × State)))

/-- A walk that is cut off. -/
def cutOff {α : Type} : Walk α :=
  fun _ => (none : Option (Except MissingSchema (α × State)))

/-- Find the component for an inline schema: one that is shared, or a new one. The second part of the
result tells whether it is new. -/
def assign (config : Config) (schema : Schema) (derived : String) : Step (String × Bool) := do
  let candidate := config.baseName schema derived
  let known := (← get).registry.reusable? candidate.base schema
  match if config.options.skipSchemaReuse then none else known with
  | some name =>
    share candidate derived name schema
    pure (name, false)
  | none => do pure (← register candidate derived schema, true)

/-- Check a schema that is a reference. -/
def checkReference : Schema → Step Unit
  | .reference target => checkSchema target
  | _ => pure ()

section Walks

variable (config : Config) (visit : Role → String → Schema → Walk Schema)

/-- Flatten the children of a named schema, one after the other. -/
def walkChildren (parent : String) : Children → Walk Children
  | [] => pure []
  | (edge, child) :: rest => do
    let child ← visit edge.role (derivedAt config parent edge) child
    let rest ← walkChildren parent rest
    pure ((edge, child) :: rest)

/-- Flatten the inside of a schema that stays where it is. -/
def walkInside (parent : String) (schema : Schema) : Walk Schema := do
  ended (checkReference schema)
  let below ← walkChildren config visit parent schema.hoisted.children
  pure (schema.hoisted.withChildren below)

/-- Flatten the inside of the component of a name, whatever the registry holds there. -/
def walkRegistered (name : String) : Walk Unit := do
  let schema ← ended (takeOut name)
  let result ← walkInside config visit name schema
  ended (putBack name result)

/-- Flatten a schema at a position. A schema that is extracted goes to the registry, and what is
visited is the component of its name. -/
def walkPlace (policy : Policy) (role : Role) (derived : String) (schema : Schema) :
    Walk Schema :=
  if schema.extractedAt policy role then do
    let assigned ← ended (assign config schema derived)
    if assigned.2 then walkRegistered config visit assigned.1
    pure (replacement assigned.1 schema)
  else walkInside config visit derived schema

end Walks

/-- The recursion through the registry, cut off where it goes deeper than a bound. -/
def walk (config : Config) (policy : Policy) : Nat → Role → String → Schema → Walk Schema
  | 0 => fun _ _ _ => cutOff
  | bound + 1 => walkPlace config (walk config policy bound) policy

/-- With a large enough bound nothing is cut off, and this is what comes out. -/
def EndsIn {α : Type} (walk : Nat → Walk α) (before : State)
    (outcome : Except MissingSchema (α × State)) : Prop :=
  ∃ bound, ∀ larger, bound ≤ larger → ((walk larger).run before).run = some outcome

variable {α β : Type}

@[simp]
theorem ended_pure (result : α) : ended (pure result) = pure result :=
  rfl

theorem ended_bind (step : Step α) (next : α → Step β) :
    ended (step >>= next) = ended step >>= fun result => ended (next result) := by
  funext before
  have split : (ended (step >>= next)).run before =
      (some (step.run before >>= fun entry => (next entry.1).run entry.2) :
        Option (Except MissingSchema (β × State))) := rfl
  have joined : (ended step >>= fun result => ended (next result)).run before =
      ExceptT.bind (some (step.run before) : Option (Except MissingSchema (α × State)))
        fun entry => (some ((next entry.1).run entry.2) : Option (Except MissingSchema _)) := rfl
  change (ended (step >>= next)).run before = _
  rw [split]
  refine Eq.trans ?_ joined.symm
  cases step.run before with
  | error missing => rfl
  | ok entry => rfl

theorem ended_bind_of_run {step : Step α} {before after : State} {result : α}
    (run : step.run before = .ok (result, after)) (next : α → Walk β) :
    (ended step >>= next).run before = (next result).run after := by
  have joined : (ended step >>= next).run before =
      ExceptT.bind (some (step.run before) : Option (Except MissingSchema (α × State)))
        fun entry => (next entry.1).run entry.2 := rfl
  rw [joined, run]
  rfl

theorem ended_bind_of_error {step : Step α} {before : State} {missing : MissingSchema}
    (run : step.run before = .error missing) (next : α → Walk β) :
    (ended step >>= next).run before =
      (some (.error missing) : Option (Except MissingSchema (β × State))) := by
  have joined : (ended step >>= next).run before =
      ExceptT.bind (some (step.run before) : Option (Except MissingSchema (α × State)))
        fun entry => (next entry.1).run entry.2 := rfl
  rw [joined, run]
  rfl

/-! ## Agreement -/

variable (config : Config) (policy : Policy)

theorem extract_eq (schema : Schema) (derived : String) (inside : String → Step Schema) :
    extract config schema derived inside = (do
      let assigned ← assign config schema derived
      if assigned.2 then
        let _ ← takeOut assigned.1
        putBack assigned.1 (← inside assigned.1)
      pure (replacement assigned.1 schema)) := by
  rw [extract, assign]
  simp only [bind_assoc]
  congr 1
  funext state
  generalize (if config.options.skipSchemaReuse then none
    else state.registry.reusable? (config.baseName schema derived).base schema) = known
  cases known with
  | some name => simp
  | none => simp

/-- A new component holds the schema. -/
theorem yields_assign (schema : Schema) (derived : String) (before : State) :
    Yields (assign config schema derived) before fun assigned after =>
      assigned.2 = true → Members.get? assigned.1 after.registry.schemas = some schema := by
  apply yields_get
  dsimp only
  split
  · next name _ =>
      exact yields_bind (yields_share _ derived name schema before) fun _ _ _ =>
        yields_pure (by simp)
  · exact yields_bind (yields_register _ derived schema before) fun _ _ opens =>
      yields_pure fun _ => opens.found

section Agreement

variable {visit : Role → String → Schema → Walk Schema} {schema : Schema}
  (each : ∀ edge child, (edge, child) ∈ schema.hoisted.children → ∀ derived,
    visit edge.role derived child =
      ended (visitSchema config policy edge.role false derived child))

include each

/-- Walking into a schema is visiting its children. -/
theorem walkInside_eq (inline : schema.isReference = false) (parent : String) :
    walkInside config visit parent schema =
      ended (do
        let below ← visitChildren config policy parent schema.hoisted.children
        pure (schema.hoisted.withChildren below)) := by
  have unchecked : checkReference schema = pure () := by
    cases schema with
    | reference => simp [Schema.isReference] at inline
    | _ => rfl
  have below : ∀ children : Children, (∀ entry ∈ children, entry ∈ schema.hoisted.children) →
      walkChildren config visit parent children =
        ended (visitChildren config policy parent children) := by
    intro children inside
    induction children with
    | nil => rfl
    | cons entry rest ih =>
        rcases entry with ⟨edge, child⟩
        rw [walkChildren, visitChildren_cons, each edge child (inside _ List.mem_cons_self),
          ih fun entry present => inside entry (List.mem_cons_of_mem _ present)]
        simp only [ended_bind, ended_pure]
  rw [walkInside, unchecked, below _ fun _ present => present, ended_bind, ended_pure, pure_bind]
  rfl

/-- Walking into a schema is visiting it where it is not extracted. -/
theorem walkInside_eq_visitSchema (parent : String) :
    walkInside config visit parent schema =
      ended (visitSchema config policy .component false parent schema) := by
  cases inline : schema.isReference with
  | true =>
      obtain ⟨target, rfl⟩ := Schema.exists_eq_reference inline
      rw [visitSchema, ended_bind]
      rfl
  | false =>
      rw [walkInside_eq config policy each inline, visitSchema_eq config policy _ parent inline]
      rfl

/-- Walking to a place is visiting it, if it is so for the children. -/
theorem walkPlace_eq (role : Role) (derived : String) :
    walkPlace config visit policy role derived schema =
      ended (visitSchema config policy role false derived schema) := by
  cases inline : schema.isReference with
  | true =>
      obtain ⟨target, rfl⟩ := Schema.exists_eq_reference inline
      rw [walkPlace, extractedAt_reference, if_neg (by simp),
        walkInside_eq_visitSchema config policy each]
      rfl
  | false =>
      have inside := walkInside_eq config policy each inline
      rw [visitSchema_eq config policy role derived inline, walkPlace, place]
      split
      · funext before
        obtain ⟨⟨name, isNew⟩, middle, run, holds⟩ := yields_assign config schema derived before
        rw [extract_eq, ended_bind]
        refine (ended_bind_of_run run _).trans (Eq.trans ?_ (ended_bind_of_run run _).symm)
        cases isNew with
        | false => rfl
        | true =>
            -- what is taken out is what was stored, so that the walk goes into the schema itself
            obtain ⟨_, after, out, rfl, _⟩ := yields_takeOut (holds rfl)
            simp only [if_true, walkRegistered, ended_bind, bind_assoc]
            refine (ended_bind_of_run out _).trans (Eq.trans ?_ (ended_bind_of_run out _).symm)
            rw [inside]
            simp only [ended_bind, bind_assoc]
            rfl
      · exact inside derived

end Agreement

/-- With this bound the recursion through the registry does what the recursion on the schema does,
from every state. -/
def Agrees (bound : Nat) (schema : Schema) : Prop :=
  ∀ role derived, walk config policy bound role derived schema =
    ended (visitSchema config policy role false derived schema)

/-- One bound is enough for all children. -/
theorem exists_bound_of_each (children : Children)
    (each : ∀ edge child, (edge, child) ∈ children →
      ∃ bound, ∀ larger, bound ≤ larger → Agrees config policy larger child) :
    ∃ bound, ∀ larger, bound ≤ larger → ∀ edge child, (edge, child) ∈ children →
      Agrees config policy larger child := by
  induction children with
  | nil => exact ⟨0, by simp⟩
  | cons entry rest ih =>
      rcases entry with ⟨edge, child⟩
      obtain ⟨first, own⟩ := each edge child List.mem_cons_self
      obtain ⟨second, others⟩ :=
        ih fun edge child present => each edge child (List.mem_cons_of_mem _ present)
      refine ⟨max first second, fun larger le other found present => ?_⟩
      rcases List.mem_cons.mp present with same | listed
      · cases same
        exact own larger (by omega)
      · exact others larger (by omega) other found listed

/-- A bound that is enough for the children is one too few. -/
theorem exists_agrees (schema : Schema) :
    ∃ bound, ∀ larger, bound ≤ larger → Agrees config policy larger schema := by
  induction schema using Schema.induction_hoisted with
  | step schema ih =>
      obtain ⟨bound, each⟩ := exists_bound_of_each config policy _ ih
      refine ⟨bound + 1, fun larger le role derived => ?_⟩
      obtain ⟨less, rfl⟩ : ∃ less, larger = less + 1 := ⟨larger - 1, by omega⟩
      exact walkPlace_eq config policy
        (fun edge child present => each less (by omega) edge child present edge.role) role derived

/-- From every state the recursion ends as the visit of the schema does. -/
theorem endsIn_walk (role : Role) (derived : String) (schema : Schema) (before : State) :
    EndsIn (fun bound => walk config policy bound role derived schema) before
      ((visitSchema config policy role false derived schema).run before) := by
  obtain ⟨bound, agrees⟩ := exists_agrees config policy schema
  refine ⟨bound, fun larger le => ?_⟩
  simp only [agrees larger le role derived]
  rfl

theorem takeOut_run_of_not_mem {name : String} {before : State}
    (absent : name ∉ Members.keys before.registry.schemas) :
    (takeOut name).run before = .error ⟨name⟩ := by
  have lookup := Members.get?_eq_none_iff.mpr absent
  simp [takeOut, Registry.take?, lookup]
  rfl

/-- So does the visit of a component, whatever the registry holds under the name. -/
theorem endsIn_walkRegistered (name : String) (before : State) :
    EndsIn (fun bound => walkRegistered config (walk config policy bound) name) before
      ((visitComponent config policy name).run before) := by
  by_cases present : name ∈ Members.keys before.registry.schemas
  · obtain ⟨schema, found⟩ := Members.exists_get?_eq_some_of_mem_keys present
    obtain ⟨taken, after, out, same, _⟩ := yields_takeOut found
    obtain ⟨bound, each⟩ := exists_bound_of_each config policy taken.hoisted.children
      fun _ child _ => exists_agrees config policy child
    refine ⟨bound, fun larger le => ?_⟩
    have inside := walkInside_eq_visitSchema config policy
      (fun edge child present => each larger le edge child present edge.role) name
    change (walkRegistered config (walk config policy larger) name).run before =
      (ended (visitComponent config policy name)).run before
    rw [walkRegistered, visitComponent, ended_bind]
    refine (ended_bind_of_run out _).trans (Eq.trans ?_ (ended_bind_of_run out _).symm)
    rw [inside, ended_bind]
  · have missing := takeOut_run_of_not_mem present
    refine ⟨0, fun larger _ => ?_⟩
    change (walkRegistered config (walk config policy larger) name).run before =
      (ended (visitComponent config policy name)).run before
    rw [walkRegistered, visitComponent, ended_bind]
    exact (ended_bind_of_error missing _).trans (ended_bind_of_error missing _).symm

/-! ## Passes -/

/-- A component can be visited exactly if it is there. -/
theorem visitComponent_run_eq_ok_iff (name : String) (before : State) :
    (∃ after, (visitComponent config policy name).run before = .ok ((), after)) ↔
      name ∈ Members.keys before.registry.schemas := by
  constructor
  · rintro ⟨after, run⟩
    by_contra absent
    rw [visitComponent, StateT.run_bind, takeOut_run_of_not_mem absent] at run
    contradiction
  · intro present
    rcases (growing config).visitComponent policy present with ⟨_, after, run, _⟩
    exact ⟨after, run⟩

/-- A pass over a document has an outcome, whatever the document and the configuration. From every
state the visit of a schema ends without an error, and so does the recursion through the registry,
with the same result and the same state. It is the same with the visit of a component, which ends
without an error exactly if the registry has the name. -/
theorem flatten_terminates (config : Config) (document : Document) :
    (∃ outcome, document.flatten config = .ok outcome) ∧
      (∀ policy role derived schema before, ∃ result after,
        (visitSchema config policy role false derived schema).run before = .ok (result, after) ∧
          EndsIn (fun bound => walk config policy bound role derived schema) before
            (.ok (result, after))) ∧
      ∀ policy name before,
        EndsIn (fun bound => walkRegistered config (walk config policy bound) name) before
            ((visitComponent config policy name).run before) ∧
          ((∃ after, (visitComponent config policy name).run before = .ok ((), after)) ↔
            name ∈ Members.keys before.registry.schemas) := by
  refine ⟨?_, ?_, fun policy name before => ⟨?_, ?_⟩⟩
  · rcases (growing config).visitDocument document with ⟨paths, after, run, _⟩
    rw [Document.flatten, run]
    exact ⟨_, rfl⟩
  · intro policy role derived schema before
    rcases yields_visitSchema config policy role derived schema before with
      ⟨result, after, run, _⟩
    exact ⟨result, after, run, run ▸ endsIn_walk config policy role derived schema before⟩
  · exact endsIn_walkRegistered config policy name before
  · exact visitComponent_run_eq_ok_iff config policy name before

end SchemaLift.Flatten
