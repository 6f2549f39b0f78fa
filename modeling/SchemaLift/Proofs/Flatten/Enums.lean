import SchemaLift.Proofs.Flatten.Clean
import SchemaLift.Proofs.Flatten.Registered

/-!
# Enumerations that a pass leaves in place

Where enumerations count, a pass leaves none in place, and it goes through the insides of what it
extracts. But an enumeration is left in place behind a reference if an equal shape was met earlier
where enumerations do not count, so that its component is shared (`flatten_jobs_walks`), or if the
reference led nowhere and its name has been registered for a schema that is met there. If neither
can happen, none is left (`flatten_enumFree`).
-/

namespace SchemaLift.Flatten

/-- What is met on a walk through a document from the schemas where enumerations count, through
their children and through references to components of certain names. -/
inductive Walks (names : List String) (document : Document) : Role → Schema → Prop
  | root {schema : Schema} (inside : document.Mentions true schema) :
      Walks names document .slot schema
  | child {role : Role} {schema child : Schema} {edge : Edge}
      (parent : Walks names document role schema) (below : (edge, child) ∈ schema.children) :
      Walks names document edge.role child
  | component {role : Role} {target : Reference} {name : String} {content : Schema}
      (reference : Walks names document role (.reference target))
      (own : target.pointer = Pointer.toSchema name) (listed : name ∈ names)
      (found : Members.get? name document.components.schemas = some content) :
      Walks names document .component content

variable {config : Config} {document : Document} {names : List String} {role : Role}
  {schema : Schema}

/-- What is met on a walk is tidy, if that is so of the schemas where it starts and of clean
components. -/
theorem Walks.tidy {clean : String → Prop}
    (roots : ∀ schema, document.Mentions true schema → Tidy names clean .slot schema)
    (contents : ∀ name content, clean name →
      Members.get? name document.components.schemas = some content →
        Tidy names clean .component content)
    (walks : Walks names document role schema) : Tidy names clean role schema := by
  induction walks with
  | root inside => exact roots _ inside
  | child _ below ih =>
      rcases ih with ⟨⟨_, each⟩, leads⟩
      exact ⟨each _ _ below, fun name listed refers =>
        leads name listed (Schema.RefersTo.child below refers)⟩
  | component _ own listed found ih =>
      exact contents _ _ (ih.leads _ listed (Schema.RefersTo.here own)) found

/-- In a pass that extracts enumerations, with any other options, none is left in place on the walk
through what was met where they count, and through the components that have been registered. This
holds without reuse, and with reuse if schemas with an enumeration in place that are met elsewhere
equal none that is met there; and as long as no reference that was there before leads to a component
that has been registered. -/
theorem flatten_enumFree (config : Config) (counts : config.options.resolveInlineEnums = true)
    {document : Document} (distinct : document.DistinctKeys)
    (apart : config.options.skipSchemaReuse = false → KeepsApart document) :
    ∃ outcome, document.flatten config = .ok outcome ∧
      ((∀ schema, document.Mentions true schema → Avoids outcome.report.registered schema) →
        ∀ role schema, Walks outcome.report.registered outcome.document role schema →
          role = .slot ∨ role = .alternative → schema.isEnum = false) := by
  obtain ⟨outcome, last, run, registers, report, _⟩ := exists_registered config distinct.names
  refine ⟨outcome, run, fun uncaptured role schema walks inside => ?_⟩
  have fresh : ∀ name ∈ outcome.report.registered,
      name ∉ Members.keys document.components.schemas :=
    fun name listed => not_mem_keys_of_settles registers (report ▸ listed)
  have avoids : ∀ schema, MetIn document true schema →
      Avoids outcome.report.registered schema := by
    intro schema met name listed refers
    rcases met.exists_refersTo refers with ⟨root, mentions, there⟩
    exact uncaptured root mentions name listed there
  have policy : ∀ enums, (policyFor config enums).inlineEnums = enums := by
    simp [policyFor, counts]
  have own : document.Related (Keeps fun enums schema => document.Mentions enums schema)
      document := Document.related_self fun _ _ inside => inside
  have roots : document.Related (fun enums schema other =>
      other = schema ∧ VisitableIn document (policyFor config enums) .slot schema) document := by
    refine own.mono fun enums schema other keeps => ⟨keeps.1, Or.inl ?_, ?_⟩
    · rw [policy]
      exact MetIn.mentioned keeps.2
    · exact distinct.mentioned enums schema keeps.2
  obtain ⟨_, after, again, settles, _, _⟩ :=
    (clearing config document outcome.report.registered fresh avoids apart).flatten
      (Cleaned.start config distinct.names) distinct.names roots fun name schema present =>
        ⟨Or.inl (MetIn.component present), distinct.components name schema present⟩
  cases run.symm.trans again
  have tidy : Tidy outcome.report.registered
      (Clean config document outcome.report.registered after) role schema := by
    refine walks.tidy ?_ ?_
    · intro root mentions
      rcases settles.outside.exists_mentioned mentions with ⟨original, there, _, becomes⟩
      exact becomes.tidy ⟨uncaptured original there, Or.inl (policy true)⟩
    · intro name content clean found
      rw [settles.schemas] at found
      exact (closed_clean after).tidy name content clean found
  rcases tidy.enumFree with ⟨own, _⟩
  exact own inside

/-! ## A shape that is met in both surroundings -/

/-- A status, which is one of two values. -/
def status : Schema :=
  .primitive
    { enumValues := [.string "on", .string "off"]
      metadata := { declaredType := some (.single "string") } }

/-- A task with a status. -/
def task : Schema :=
  .object
    ⟨[("status", status)], [], .unspecified, none, { declaredType := some (.single "object") }⟩

/-- A remark, which is text. -/
def remark : Schema :=
  .object
    ⟨[("text", .primitive { metadata := { declaredType := some (.single "string") } })],
      [], .unspecified, none, { declaredType := some (.single "object") }⟩

/-- A request body that is written as JSON or sent as a form. -/
def job (plain form : Schema) : RequestBody :=
  ⟨some [("application/json", ⟨some plain, []⟩), ("multipart/form-data", ⟨some form, []⟩)], []⟩

/-- A document with that request body. -/
def jobs (plain form : Schema) : Document where
  openapi := "3.0.1"
  components := { requestBodies := [("Job", .item (job plain form))] }

/-- A configuration that extracts enumerations. -/
def resolving : Config where
  options := { resolveInlineEnums := true }

theorem job_mentions_iff {plain form schema : Schema} {enums : Bool} :
    (job plain form).Mentions enums schema ↔
      enums = false ∧ schema = plain ∨ enums = true ∧ schema = form := by
  constructor
  · rintro ⟨members, same, name, media, there, own, counts⟩
    cases same
    rcases List.mem_cons.mp there with first | second
    · cases first
      exact Or.inl ⟨counts.symm.trans (by decide), (Option.some.inj own).symm⟩
    · cases List.mem_singleton.mp second
      exact Or.inr ⟨counts.symm.trans (by decide), (Option.some.inj own).symm⟩
  · rintro (⟨rfl, rfl⟩ | ⟨rfl, rfl⟩)
    · exact ⟨_, rfl, _, _, List.mem_cons_self, rfl, by decide⟩
    · exact ⟨_, rfl, _, _, List.mem_cons_of_mem _ List.mem_cons_self, rfl, by decide⟩

theorem jobs_mentions {plain form schema : Schema} {enums : Bool}
    (mentions : (jobs plain form).Mentions enums schema) :
    enums = false ∧ schema = plain ∨ enums = true ∧ schema = form := by
  cases mentions with
  | path present => simp [jobs] at present
  | response present => simp [jobs] at present
  | requestBody present inside =>
      cases List.mem_singleton.mp present
      exact job_mentions_iff.mp inside

/-- A task that is sent as a form is folded into the one that is written as JSON, where its status
is left in place. -/
theorem flatten_jobs_walks :
    ∃ outcome, (jobs task task).flatten resolving = .ok outcome ∧
      ∃ schema, Walks outcome.report.registered outcome.document .slot schema ∧
        schema.isEnum = true := by
  have parts : ((jobs task task).flatten resolving).map (fun outcome =>
      (outcome.report.registered, outcome.document.components)) =
        .ok (["Job_request"],
          { schemas := [("Job_request", task)]
            requestBodies := [("Job",
              .item (job (.referenceTo "Job_request") (.referenceTo "Job_request")))] }) := by
    with_unfolding_all rfl
  cases run : (jobs task task).flatten resolving with
  | error missing => simp [run, Except.map] at parts
  | ok outcome =>
      simp only [run, Except.map, Except.ok.injEq, Prod.mk.injEq] at parts
      rcases parts with ⟨registered, components⟩
      have body : ("Job", .item (job (.referenceTo "Job_request") (.referenceTo "Job_request"))) ∈
          outcome.document.components.requestBodies := by
        rw [components]
        exact List.mem_singleton_self _
      have form : outcome.document.Mentions true (.referenceTo "Job_request") :=
        Document.Mentions.requestBody body (job_mentions_iff.mpr (Or.inr ⟨rfl, rfl⟩))
      have content : Walks outcome.report.registered outcome.document .component task := by
        refine Walks.component (Walks.root form) rfl ?_ ?_
        · rw [registered]
          exact List.mem_singleton_self _
        · rw [components]
          rfl
      exact ⟨outcome, rfl, status, Walks.child content List.mem_cons_self, rfl⟩

theorem distinctKeys_typed (name : String) :
    ({ declaredType := some (.single name) } : Metadata).DistinctKeys :=
  Metadata.distinctKeys_of_extensions rfl rfl Json.distinctMap_nil rfl

theorem distinctKeys_task : task.DistinctKeys := by
  apply Schema.distinctKeys_object ⟨by simp, distinctKeys_typed _⟩ (by decide) _ (by simp)
  intro name child inside
  cases List.mem_singleton.mp inside
  refine Schema.distinctKeys_of_children_eq_nil ⟨?_, distinctKeys_typed _⟩ rfl rfl
  intro value listed
  simp at listed
  rcases listed with rfl | rfl
  all_goals exact Json.distinctKeys_of_parts_eq_nil rfl

theorem distinctKeys_remark : remark.DistinctKeys := by
  apply Schema.distinctKeys_object ⟨by simp, distinctKeys_typed _⟩ (by decide) _ (by simp)
  intro name child inside
  cases List.mem_singleton.mp inside
  exact Schema.distinctKeys_of_children_eq_nil ⟨by simp, distinctKeys_typed _⟩ rfl rfl

theorem distinctKeys_jobs {plain form : Schema} (first : plain.DistinctKeys)
    (second : form.DistinctKeys) : (jobs plain form).DistinctKeys := by
  refine ⟨⟨List.nodup_nil, by simp [jobs], List.nodup_singleton _, ?_, List.nodup_nil,
    by simp [jobs], Json.distinctMap_nil, Json.distinctMap_nil⟩, ?_, List.nodup_nil,
    by simp [jobs]⟩
  · intro name body present
    cases List.mem_singleton.mp present
    refine ⟨?_, Json.distinctMap_nil⟩
    rintro members same
    cases same
    constructor
    · simp [Members.Distinct]
    · intro name media there
      simp at there
      rcases there with ⟨rfl, rfl⟩ | ⟨rfl, rfl⟩
      all_goals exact Json.distinctMap_nil
  · intro enums schema mentions
    rcases jobs_mentions mentions with ⟨_, rfl⟩ | ⟨_, rfl⟩
    · exact first
    · exact second

theorem avoids_task (names : List String) : Avoids names task := by
  intro name _ refers
  cases refers with
  | child below inside =>
      cases List.mem_singleton.mp below
      cases inside with
      | child below => simp [status, Schema.children] at below

/-- What is sent as a form may be a task, where remarks are written as JSON. -/
theorem jobs_enumFree :
    resolving.options.resolveInlineEnums = true ∧ (jobs remark task).DistinctKeys ∧
      (resolving.options.skipSchemaReuse = false → KeepsApart (jobs remark task)) ∧
      ∃ outcome, (jobs remark task).flatten resolving = .ok outcome ∧
        (∀ schema, (jobs remark task).Mentions true schema →
          Avoids outcome.report.registered schema) ∧
        ∀ role schema, Walks outcome.report.registered outcome.document role schema →
          role = .slot ∨ role = .alternative → schema.isEnum = false := by
  have distinct := distinctKeys_jobs distinctKeys_remark distinctKeys_task
  have free : remark.EnumFree .component := by
    refine Schema.EnumFree.intro (by simp) fun edge child below => ?_
    cases List.mem_singleton.mp below
    exact Schema.enumFree_of_children_eq_nil rfl rfl
  have apart : KeepsApart (jobs remark task) := by
    apply keepsApart_of_enumFree
    · intro schema mentions
      rcases jobs_mentions mentions with ⟨_, rfl⟩ | ⟨counts, _⟩
      · exact free
      · contradiction
    · simp [jobs]
  have avoids : ∀ names schema, (jobs remark task).Mentions true schema → Avoids names schema := by
    intro names schema mentions
    rcases jobs_mentions mentions with ⟨counts, _⟩ | ⟨_, rfl⟩
    · contradiction
    · exact avoids_task names
  obtain ⟨outcome, run, left⟩ := flatten_enumFree resolving rfl distinct fun _ => apart
  exact ⟨rfl, distinct, fun _ => apart, outcome, run, avoids _, left (avoids _)⟩

end SchemaLift.Flatten
