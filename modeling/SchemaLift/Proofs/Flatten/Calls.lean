import SchemaLift.Proofs.Audit.Resolution
import SchemaLift.Proofs.Flatten.Trends

/-!
# What `extract` returns

The log of a pass says which name was found for each schema that has been moved. That the schema was
replaced by a reference to the component of this name has to be said of the calls of `extract`: the
first thing that a call logs is the base name, the schema that was passed to it and the name that
the returned reference points to (`Call.exists_pointsTo`). A pass makes exactly one call for each
entry of its log, since every visit extends the log by calls (`logsCalls_visitSchema`, `calling`).
-/

namespace SchemaLift.Flatten

/-- Flatten the inside of a schema where it is. -/
def visitInside (config : Config) (policy : Policy) (schema : Schema) (parent : String) :
    Step Schema := do
  let below ← visitChildren config policy parent schema.hoisted.children
  pure (schema.hoisted.withChildren below)

/-- A schema is extracted by a call of `extract`. -/
theorem visitSchema_eq_extract (config : Config) {policy : Policy} {role : Role} {schema : Schema}
    (moves : schema.extractedAt policy role = true) (derived : String) :
    visitSchema config policy role false derived schema =
      extract config schema derived (visitInside config policy schema) := by
  have inline := Schema.isReference_of_extractedAt moves
  rw [visitSchema_eq config policy role derived inline, place, if_pos moves]
  rfl

/-- A call of `extract`, from the state before it to the state after it. -/
structure Call (config : Config) where
  policy : Policy
  /-- The schema that is to be moved, whose children have not been flattened yet. -/
  schema : Schema
  derived : String
  before : State
  result : Schema
  after : State
  returns : (extract config schema derived (visitInside config policy schema)).run before =
    .ok (result, after)

namespace Call

variable {config : Config} (call : Call config)

/-- The base name, as the title, the derived name and the mapped names give it. -/
def base : String :=
  (config.baseName call.schema call.derived).base

/-- What is to be logged of the call when its name has been found. -/
def entry (name : String) : Extraction :=
  ⟨call.base, call.schema, name⟩

/-- The call returns a reference to the component of a name. It keeps the schema's extensions. -/
def PointsTo (name : String) : Prop :=
  call.result = .reference ⟨Pointer.toSchema name, call.schema.extensions⟩

/-- All that the call logs is in the log of an outcome. So it is with every call that the pass
makes, since the log is only extended. -/
def Within (outcome : Outcome) : Prop :=
  call.after.extractions <+: outcome.extractions

variable {call} in
theorem PointsTo.unique {name other : String} (left : call.PointsTo name)
    (right : call.PointsTo other) : name = other := by
  rw [PointsTo, left] at right
  simp only [Schema.reference.injEq, Reference.mk.injEq, and_true] at right
  exact Pointer.toSchema_injective right

end Call

/-! ## The log of a visit -/

/-- A log is extended by calls: for each entry that is added there is a call that starts with this
entry, and all that it logs is in the later log. -/
structure Covers (config : Config) (early later : List Extraction) : Prop where
  extended : early <+: later
  made : ∀ index, early.length ≤ index → index < later.length →
    ∃ call : Call config, call.before.extractions.length = index ∧
      call.after.extractions <+: later

namespace Covers

variable {config : Config} {early middle later : List Extraction}

theorem refl (log : List Extraction) : Covers config log log := by
  constructor
  · exact List.prefix_refl log
  · intro index above below
    omega

theorem trans (first : Covers config early middle) (second : Covers config middle later) :
    Covers config early later := by
  constructor
  · exact first.extended.trans second.extended
  · intro index above below
    by_cases soon : index < middle.length
    · obtain ⟨call, starts, logged⟩ := first.made index above soon
      exact ⟨call, starts, logged.trans second.extended⟩
    · exact second.made index (by omega) below

/-- If the first entry is that of a call, and the others come from calls inside it, the call extends
the log by calls. -/
theorem of_call (call : Call config) {entry : Extraction}
    (inside : Covers config (call.before.extractions ++ [entry]) call.after.extractions) :
    Covers config call.before.extractions call.after.extractions := by
  constructor
  · exact (List.prefix_append _ _).trans inside.extended
  · intro index above below
    by_cases first : index = call.before.extractions.length
    · exact ⟨call, first.symm, List.prefix_refl _⟩
    · apply inside.made index ?_ below
      rw [List.length_append, List.length_singleton]
      omega

end Covers

/-- From every state the step runs to its end, and it extends the log by calls. -/
def LogsCalls {α : Type} (config : Config) (step : Step α) : Prop :=
  ∀ before, Yields step before fun _ after => Covers config before.extractions after.extractions

variable {config : Config} {policy : Policy}

theorem logsCalls_pure {α : Type} (result : α) : LogsCalls config (pure result) :=
  fun _ => yields_pure (.refl _)

theorem LogsCalls.bind {α β : Type} {step : Step α} {next : α → Step β}
    (first : LogsCalls config step) (rest : ∀ result, LogsCalls config (next result)) :
    LogsCalls config (step >>= next) := by
  intro before
  apply yields_bind (first before)
  intro result middle early
  exact (rest result middle).mono fun _ _ late => early.trans late

theorem logsCalls_checkSchema (target : Reference) : LogsCalls config (checkSchema target) := by
  intro before
  apply (yields_checkSchema target before).mono
  rintro _ after (⟨_, rfl⟩ | ⟨_, reports⟩)
  · exact .refl _
  · exact reports.extractions ▸ .refl _

theorem logsCalls_visitChildren {children : Children}
    (each : ∀ edge child, (edge, child) ∈ children → ∀ derived,
      LogsCalls config (visitSchema config policy edge.role false derived child))
    (parent : String) : LogsCalls config (visitChildren config policy parent children) := by
  induction children with
  | nil => exact logsCalls_pure []
  | cons entry rest ih =>
      rcases entry with ⟨edge, child⟩
      have others := ih fun edge child present => each edge child (List.mem_cons_of_mem _ present)
      rw [visitChildren_cons]
      apply (each edge child List.mem_cons_self _).bind
      intro result
      exact others.bind fun results => logsCalls_pure _

theorem logsCalls_visitInside {schema : Schema}
    (each : ∀ edge child, (edge, child) ∈ schema.hoisted.children → ∀ derived,
      LogsCalls config (visitSchema config policy edge.role false derived child))
    (parent : String) : LogsCalls config (visitInside config policy schema parent) :=
  (logsCalls_visitChildren each parent).bind fun below =>
    logsCalls_pure (schema.hoisted.withChildren below)

section Extract

variable {schema : Schema} (inside : ∀ parent,
  LogsCalls config (visitInside config policy schema parent))

include inside

/-- The name to which the returned reference points is logged with the base name and the schema,
before anything that is extracted from the inside. -/
theorem yields_extract_pointsTo (derived : String) (before : State) :
    Yields (extract config schema derived (visitInside config policy schema)) before
      fun result after => ∃ name,
        result = .reference ⟨Pointer.toSchema name, schema.extensions⟩ ∧
          Covers config
            (before.extractions ++ [⟨(config.baseName schema derived).base, schema, name⟩])
            after.extractions := by
  apply yields_extract
  · intro name after _ _ shares
    exact ⟨name, rfl, shares.extractions ▸ .refl _⟩
  · intro name middle _ opens
    apply (inside name middle).mono
    intro content after covers
    exact ⟨name, rfl, opens.extractions ▸ covers⟩

theorem logsCalls_extract (derived : String) :
    LogsCalls config (extract config schema derived (visitInside config policy schema)) := by
  intro before
  obtain ⟨result, after, run, name, _, covers⟩ := yields_extract_pointsTo inside derived before
  have whole := Covers.of_call ⟨policy, schema, derived, before, result, after, run⟩ covers
  exact ⟨result, after, run, whole⟩

end Extract

/-- The visit of a schema extends the log by calls. -/
theorem logsCalls_visitSchema (role : Role) (derived : String) (schema : Schema) :
    LogsCalls config (visitSchema config policy role false derived schema) := by
  induction schema using Schema.induction_hoisted generalizing role derived with
  | step schema ih =>
      have inside : ∀ parent, LogsCalls config (visitInside config policy schema parent) :=
        logsCalls_visitInside fun edge child present => ih edge child present edge.role
      cases moves : schema.extractedAt policy role with
      | true =>
          rw [visitSchema_eq_extract config moves]
          exact logsCalls_extract inside derived
      | false =>
          cases inline : schema.isReference with
          | true =>
              obtain ⟨target, rfl⟩ := Schema.exists_eq_reference inline
              rw [visitSchema]
              exact (logsCalls_checkSchema target).bind fun _ => logsCalls_pure _
          | false =>
              rw [visitSchema_eq config policy role derived inline, place, moves]
              exact inside derived

/-- What a call returns is a reference, and the name to which it points is the first that the call
logs. -/
theorem Call.exists_pointsTo (call : Call config) :
    ∃ name, call.PointsTo name ∧
      call.before.extractions ++ [call.entry name] <+: call.after.extractions := by
  have inside : ∀ parent, LogsCalls config (visitInside config call.policy call.schema parent) :=
    logsCalls_visitInside fun edge child _ derived => logsCalls_visitSchema edge.role derived child
  obtain ⟨result, after, run, name, points, covers⟩ :=
    yields_extract_pointsTo inside call.derived call.before
  cases run.symm.trans call.returns
  exact ⟨name, points, covers.extended⟩

/-- So the log of an outcome has an entry for each call within it. -/
theorem Call.Within.exists_mem {call : Call config} {outcome : Outcome}
    (within : call.Within outcome) :
    ∃ name, call.PointsTo name ∧ call.entry name ∈ outcome.extractions := by
  obtain ⟨name, points, logged⟩ := call.exists_pointsTo
  have entry := List.mem_append_right call.before.extractions
    (List.mem_singleton_self (call.entry name))
  exact ⟨name, points, within.subset (logged.subset entry)⟩

/-- Calls within an outcome that start from the same length of the log are the same as far as it
matters: the same schema is passed under the same base name, and the same reference is returned. -/
theorem Call.Within.agree {call other : Call config} {outcome : Outcome}
    (within : call.Within outcome) (also : other.Within outcome)
    (starts : other.before.extractions.length = call.before.extractions.length) :
    other.schema = call.schema ∧ other.base = call.base ∧ other.result = call.result := by
  obtain ⟨name, points, logged⟩ := call.exists_pointsTo
  obtain ⟨otherName, otherPoints, otherLogged⟩ := other.exists_pointsTo
  have lengths : (other.before.extractions ++ [other.entry otherName]).length =
      (call.before.extractions ++ [call.entry name]).length := by
    rw [List.length_append, List.length_append, starts]
    rfl
  have front := List.prefix_of_prefix_length_le (otherLogged.trans also) (logged.trans within)
    (Nat.le_of_eq lengths)
  have entries := (List.append_inj (front.eq_of_length lengths) starts).2
  obtain ⟨bases, schemas, names⟩ := Extraction.mk.inj (List.singleton_inj.mp entries)
  have results : other.result = call.result := by
    rw [PointsTo, names, schemas] at otherPoints
    exact otherPoints.trans points.symm
  exact ⟨schemas, bases, results⟩

/-! ## The log of a pass -/

/-- The trend of the log, which is extended by calls. -/
def calling (config : Config) : Trend config where
  Goes before after :=
    Covers config before.extractions after.extractions ∧
      Members.keys before.registry.schemas ⊆ Members.keys after.registry.schemas
  trans first second := ⟨first.1.trans second.1, List.Subset.trans first.2 second.2⟩
  sameSchemas same := by
    rw [same.registry, same.extractions]
    exact ⟨.refl _, List.Subset.refl _⟩
  withComponent state name content :=
    ⟨.refl _, (growing config).withComponent state name content⟩
  keys_subset goes := goes.2
  schema policy role derived schema before :=
    (logsCalls_visitSchema role derived schema before).and
      ((growing config).schema policy role derived schema before)

end SchemaLift.Flatten
