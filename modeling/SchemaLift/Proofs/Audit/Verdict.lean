import SchemaLift.Check
import SchemaLift.Proofs.Audit.Inline
import SchemaLift.Proofs.Audit.Seen
import SchemaLift.Proofs.Document.Reader
import SchemaLift.Proofs.Flatten.Complete
import SchemaLift.Proofs.Flatten.Noop

/-!
# The verdict of a check

A check calls a file flat when a pass over its document reports nothing. Whatever the configuration,
that is so exactly when every schema of the document rests where it stands
(`Document.isNoop_iff_rests`). The check also lists the locations of inline schemas, but those that
an audit finds which does not know the configuration. So each location that is listed makes a file
not flat, while a file can be not flat for an enumeration or a part that is not listed
(`check_jobs`). If neither of them is extracted, the list explains every verdict
(`check_explains`).
-/

namespace SchemaLift

open Flatten

/-! ## Documents at rest -/

/-- Every schema of a document rests, under the policy of its surroundings. -/
structure Document.Rests (config : Config) (document : Document) : Prop where
  outside : ∀ enums schema, document.Mentions enums schema →
    Flatten.Rests (policyFor config enums) .slot schema
  components : ∀ name schema, (name, schema) ∈ document.components.schemas →
    Flatten.Rests (policyFor config false) .component schema

/-- A pass reports nothing exactly when all schemas rest. -/
theorem Document.isNoop_iff_rests (config : Config) {document : Document}
    (names : Members.Distinct document.components.schemas) :
    ∃ outcome, document.flatten config = .ok outcome ∧
      (outcome.report.isNoop = true ↔ document.Rests config) := by
  have own : document.Related (Keeps fun _ _ => True) document :=
    Document.related_self fun _ _ _ => trivial
  obtain ⟨outcome, after, run, settles, report, _⟩ :=
    (idling config).flatten trivial names own fun _ _ _ => trivial
  refine ⟨outcome, run, fun noop => ?_, fun rests => ?_⟩
  · rw [report] at noop
    rcases settles.components with ⟨done, added, _, related⟩
    constructor
    · intro enums schema inside
      obtain ⟨other, _, _, becomes⟩ :=
        (settles.outside.flip fun _ _ _ fits => fits).exists_mentioned inside
      exact (becomes noop).rests
    · intro name schema present
      rcases related.exists_right present with ⟨other, _, becomes⟩
      exact (becomes noop).rests
  · obtain ⟨_, again, registered, reused, _⟩ :=
      exists_revisits_of_rests config names rests.outside rests.components
    cases run.symm.trans again
    simp [Report.isNoop, registered, reused]

/-! ## Listed locations -/

/-- If nothing that is seen is inline, what is seen is quiet. -/
theorem Schema.SeenIn.quiet {schema : Schema} {role : Role} {sightings : List Sighting}
    (seen : schema.SeenIn role sightings)
    (none : ∀ sighting ∈ sightings, sighting.isInline = false) : Quiet {} role schema := by
  induction schema using Schema.induction generalizing role with
  | step schema ih =>
      refine Quiet.intro ?_ fun edge child below => ih edge child below (seen.child below)
      rcases seen.exists_mem with ⟨sighting, present, rfl, rfl⟩
      exact none sighting present

theorem Document.inlineLocations_eq_nil_iff {document : Document} :
    document.inlineLocations = [] ↔
      (∀ enums schema, document.Mentions enums schema → Quiet {} .slot schema) ∧
        ∀ name schema, (name, schema) ∈ document.components.schemas →
          Quiet {} .component schema := by
  constructor
  · intro listed
    have none : ∀ sighting ∈ document.sightings, sighting.isInline = false := by
      simpa [inlineLocations, List.filter_eq_nil_iff] using listed
    exact ⟨fun _ _ inside => inside.seenIn.quiet none,
      fun _ _ present => (Document.component_seenIn present).quiet none⟩
  · exact fun quiet => inlineLocations_eq_nil quiet.1 quiet.2

/-- In a document at rest nothing is located, under whatever configuration it rests. -/
theorem Document.Rests.inlineLocations_eq_nil {config : Config} {document : Document}
    (rests : document.Rests config) : document.inlineLocations = [] :=
  inlineLocations_eq_nil_iff.mpr ⟨fun enums schema inside => (rests.outside enums schema inside).quiet,
    fun name schema present => (rests.components name schema present).quiet⟩

/-- If no option says that more is extracted, a document in which nothing is located is at rest. -/
theorem Document.rests_iff_of_plain {config : Config}
    (plain : ∀ counts, policyFor config counts = {}) {document : Document} :
    document.Rests config ↔ document.inlineLocations = [] := by
  refine ⟨Document.Rests.inlineLocations_eq_nil, fun none => ?_⟩
  rcases inlineLocations_eq_nil_iff.mp none with ⟨outside, components⟩
  constructor
  · intro enums schema inside
    rw [plain]
    exact (outside enums schema inside).rests
  · intro name schema present
    rw [plain]
    exact (components name schema present).rests

/-! ## Verdicts -/

/-- A document in a file has no map with a key twice. -/
theorem distinctKeys_of_document? {state : FileState} {document : Document}
    (found : state.document? = some (.ok document)) : document.DistinctKeys := by
  cases state with
  | missing => simp [FileState.document?] at found
  | directory => simp [FileState.document?] at found
  | binary => simp [FileState.document?] at found
  | text content =>
      rw [FileState.document?, Option.some.injEq] at found
      cases read : Document.ofText content with
      | error => simp [read, Except.mapError] at found
      | ok other =>
          rw [read] at found
          cases found
          exact Document.distinctKeys_of_ofText read

/-- A check without errors has read a document, and its verdict is that of the pass. -/
theorem CheckResult.exists_document {file : String} {config : Config} {state : FileState}
    (checked : (ofFile file config state).1.errors = []) :
    ∃ document, state.document? = some (.ok document) ∧ document.DistinctKeys ∧
      (ofFile file config state).1.inlineLocations = document.inlineLocations ∧
      ((ofFile file config state).1.flat = true ↔ document.Rests config) := by
  cases found : state.document? with
  | none => simp [ofFile, found, failed] at checked
  | some outcome =>
      cases outcome with
      | error error => simp [ofFile, found, failed] at checked
      | ok document =>
          have distinct := distinctKeys_of_document? found
          obtain ⟨outcome, run, verdict⟩ := Document.isNoop_iff_rests config distinct.names
          have result : (ofFile file config state).1 = (ofDocument file config document).1 := by
            rw [ofFile, found]
          refine ⟨document, rfl, distinct, ?_, ?_⟩
          · rw [result, ofDocument, run]
          · rw [result, ofDocument, run]
            exact verdict

/-- A check of a file that ends without errors, under any configuration, calls the file flat exactly
if every schema of its document rests. A file with a listed location is not flat. If neither
enumerations nor parts are extracted, a file is not flat exactly if there is a listed location. -/
theorem check_explains (file : String) (config : Config) (state : FileState)
    (checked : (CheckResult.ofFile file config state).1.errors = []) :
    ∃ document, state.document? = some (.ok document) ∧
      ((CheckResult.ofFile file config state).1.flat = true ↔ document.Rests config) ∧
      ((CheckResult.ofFile file config state).1.inlineLocations ≠ [] →
        (CheckResult.ofFile file config state).1.flat = false) ∧
      (config.options.resolveInlineEnums = false → config.options.refactorAllOf = false →
        ((CheckResult.ofFile file config state).1.flat = false ↔
          (CheckResult.ofFile file config state).1.inlineLocations ≠ [])) := by
  obtain ⟨document, read, _, located, verdict⟩ := CheckResult.exists_document checked
  refine ⟨document, read, verdict, fun listed => ?_, fun enums parts => ?_⟩
  · rw [located] at listed
    rw [Bool.eq_false_iff]
    exact fun flat => listed (verdict.mp flat).inlineLocations_eq_nil
  · have plain : ∀ counts, policyFor config counts = {} := by simp [policyFor, enums, parts]
    rw [located, Bool.eq_false_iff, ne_eq, verdict, Document.rests_iff_of_plain plain]

/-- A file with a user, who has an inline address. -/
def userFile : FileState :=
  .text ("openapi: 3.0.1\npaths:\ncomponents:\n  schemas:\n    User:\n      properties:\n" ++
    "        address:\n          properties:\n            city:\n              type: string\n")

/-- The address explains why the file is not flat. -/
theorem check_user_explained :
    (CheckResult.ofFile "user.yaml" {} userFile).1.errors = [] ∧
      (CheckResult.ofFile "user.yaml" {} userFile).1.inlineLocations =
        ["/components/schemas/User/properties/address"] ∧
      ∃ document, userFile.document? = some (.ok document) ∧
        ((CheckResult.ofFile "user.yaml" {} userFile).1.flat = true ↔ document.Rests {}) ∧
        (CheckResult.ofFile "user.yaml" {} userFile).1.flat = false ∧
        ((CheckResult.ofFile "user.yaml" {} userFile).1.flat = false ↔
          (CheckResult.ofFile "user.yaml" {} userFile).1.inlineLocations ≠ []) := by
  have checked : (CheckResult.ofFile "user.yaml" {} userFile).1.errors = [] := by decide +kernel
  have listed : (CheckResult.ofFile "user.yaml" {} userFile).1.inlineLocations =
      ["/components/schemas/User/properties/address"] := by
    decide +kernel
  obtain ⟨document, read, verdict, located, explained⟩ :=
    check_explains "user.yaml" {} userFile checked
  exact ⟨checked, listed, document, read, verdict, located (by simp [listed]), explained rfl rfl⟩

/-- A file with a job, which is looked up by its state. -/
def jobFile : FileState :=
  .text ("openapi: 3.0.1\npaths:\n  /jobs:\n    get:\n      operationId: listJobs\n" ++
    "      parameters:\n      - name: state\n        in: query\n        schema:\n" ++
    "          type: string\n          enum: [queued, done]\n")

/-- The states would be extracted, and no location tells of them. -/
theorem check_jobs :
    let result := (CheckResult.ofFile "jobs.yaml" { options := { resolveInlineEnums := true } }
      jobFile).1
    result.errors = [] ∧ result.flat = false ∧ result.inlineLocations = [] ∧
      result.wouldRegister = ["listJobs_state_parameter"] := by
  decide +kernel

end SchemaLift
