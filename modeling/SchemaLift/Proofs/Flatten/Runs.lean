import SchemaLift.Proofs.Flatten.Paths

/-!
# Passes over documents

What a ledger says of the visit of one schema carries over to all schemas of a document
(`Ledger.visitDocument`), and so does what it says of references outside schemas. Component schemas
come last, each of them in its place.
-/

namespace SchemaLift.Flatten

namespace Ledger

variable {config : Config} (ledger : Ledger config) {document : Document} {before after : State}

/-! ## Component request bodies and responses -/

theorem visitComponentBodies (stands : ledger.Stands document before)
    (allows : ∀ name body, (name, body) ∈ document.components.requestBodies →
      ledger.Allows fun pointer => body.Loses document.components.HasRequestBody pointer) :
    Yields (visitValues (Flatten.visitComponentBody config) before.requestBodies) before
      fun bodies after =>
        ledger.Proceeds document before after ∧
          Members.Related (fun _ => ledger.BodyDone document after)
            document.components.requestBodies bodies := by
  refine (ledger.along document).visitValues
    (fun state _ => RefOr.Related (RequestBody.Related (ledger.Pending state)))
    (fun state _ => ledger.BodyDone document state)
    (fun proceeds fits => fits.mono fun _ _ _ holds => holds.mono fun _ _ _ =>
      pending_later proceeds.later)
    (fun proceeds done => done.later
      (fun _ _ holds => holds.mono fun _ _ _ => done_later proceeds.later) proceeds.later)
    ?_ stands stands.requestBodies
  intro name body current before present stands fits
  exact (ledger.visitComponentBody name stands (allows name body present) fits).mono
    fun _ _ ends => ends.imp_left stands.proceeds_of_advances

theorem visitComponentResponses (stands : ledger.Stands document before)
    (allows : ∀ name response, (name, response) ∈ document.components.responses →
      ledger.Allows fun pointer => response.Loses document.components.HasResponse pointer)
    (pending : Members.Related (fun _ => RefOr.Related (Response.Related (ledger.Pending before)))
      document.components.responses before.responses) :
    Yields (visitValues (fun _ => visitComponentResponse config) before.responses) before
      fun responses after =>
        ledger.Advances before after ∧
          Members.Related (fun _ => ledger.ResponseDone document after)
            document.components.responses responses := by
  refine ((ledger.beside document).visitValues
    (fun state _ => RefOr.Related (Response.Related (ledger.Pending state)))
    (fun state _ => ledger.ResponseDone document state)
    (fun goes fits => fits.mono fun _ _ _ holds => holds.mono fun _ _ _ =>
      pending_later goes.1.later)
    (fun goes done => done.later
      (fun _ _ holds => holds.mono fun _ _ _ => done_later goes.1.later) goes.1.later)
    ?_ stands pending).mono fun _ _ ends => ends.imp_left And.left
  intro name response current before present stands fits
  rw [visitComponentResponse_eq]
  exact (ledger.visitResponseEntry _ stands (allows name response present) fits).mono
    fun _ _ ends => ends.imp_left stands.beside_of_advances

/-! ## Component schemas -/

/-- A component schema is visited in its place, and others may be added. -/
theorem visitComponent {policy : Policy} {name : String} {schema : Schema}
    (inv : ledger.Inv before) (found : Members.get? name before.registry.schemas = some schema)
    (original : Members.get? name before.registry.initial = some schema)
    (fits : ledger.Fits before policy .component schema) :
    Yields (Flatten.visitComponent config policy name) before fun _ after =>
      ledger.Inv after ∧ ledger.Later before after ∧ before.SameBodies after ∧
        after.registry.initial = before.registry.initial ∧
        ∃ result added,
          after.registry.schemas = Members.update name result before.registry.schemas ++ added ∧
            ledger.Becomes after policy .component schema result := by
  rcases Members.exists_split_of_get?_eq_some found with ⟨front, back, split, absent⟩
  refine yields_bind (yields_takeOut found) ?_
  rintro _ middle ⟨rfl, rfl⟩
  rcases ledger.taken inv original with ⟨taken, fitsTaken⟩
  refine yields_bind (ledger.visitSchema policy .component name taken (fitsTaken fits)) ?_
  rintro result visited ⟨advances, becomes⟩
  apply (yields_putBack name result visited).mono
  rintro _ _ rfl
  obtain ⟨holds, later, kept⟩ :=
    ledger.returned result inv original advances.inv advances.later advances.grows
  rcases advances.grows.schemas with ⟨added, schemas⟩
  refine ⟨holds, later, ⟨advances.requestBodies, advances.responses⟩, advances.grows.initial,
    result, added, ?_, kept becomes⟩
  simp only [Registry.restore, schemas, split, Members.update_append_cons absent,
    List.append_assoc, List.cons_append]

/-- The component schemas that were there in the beginning are visited in their places; what was
added stays behind them. -/
theorem visitComponents {front todo added : List (String × Schema)} (inv : ledger.Inv before)
    (schemas : before.registry.schemas = front ++ todo ++ added)
    (distinct : Members.Distinct (front ++ todo))
    (original : ∀ name schema, (name, schema) ∈ todo →
      Members.get? name before.registry.initial = some schema)
    (fits : ∀ name schema, (name, schema) ∈ todo →
      ledger.Fits before (policyFor config false) .component schema) :
    Yields (Flatten.visitComponents config (Members.keys todo)) before fun _ after =>
      ledger.Inv after ∧ ledger.Later before after ∧ before.SameBodies after ∧
        ∃ done later, after.registry.schemas = front ++ done ++ later ∧
          Members.Related
            (fun _ => ledger.Becomes after (policyFor config false) .component) todo done := by
  induction todo generalizing front added before with
  | nil =>
      refine yields_pure ⟨inv, ledger.later_refl before, State.SameBodies.refl before, [], added,
        ?_, Members.Related.nil⟩
      simpa using schemas
  | cons entry rest ih =>
      rcases entry with ⟨name, schema⟩
      have absent : name ∉ Members.keys front := by
        have parts := (List.nodup_append.mp (by simpa [Members.Distinct] using distinct)).2.2
        exact fun present => parts name present name List.mem_cons_self rfl
      have found : Members.get? name before.registry.schemas = some schema := by
        rw [schemas, List.append_assoc, Members.get?_append_of_not_mem _ absent]
        simp [Members.get?_cons]
      refine yields_bind (ledger.visitComponent inv found (original name schema List.mem_cons_self)
        (fits name schema List.mem_cons_self)) ?_
      rintro _ middle ⟨holds, first, bodies, initial, result, more, grown, becomes⟩
      have grouped : middle.registry.schemas =
          front ++ [(name, result)] ++ rest ++ (added ++ more) := by
        rw [grown, schemas, List.append_assoc, List.cons_append, Members.update_append_cons absent]
        simp
      have names : Members.Distinct (front ++ [(name, result)] ++ rest) := by
        simpa [Members.Distinct] using distinct
      refine (ih holds grouped names (fun name schema present => by
        rw [initial]
        exact original name schema (List.mem_cons_of_mem _ present)) fun name schema present =>
        ledger.fits_later first (fits name schema (List.mem_cons_of_mem _ present))).mono ?_
      rintro _ after ⟨inv, second, others, done, later, last, related⟩
      refine ⟨inv, ledger.later_trans first second, bodies.trans others, (name, result) :: done,
        later, by rw [last]; simp,
        Members.Related.cons (ledger.becomes_later second becomes) related⟩

/-! ## Whole documents -/

/-- What a ledger says of a whole pass over a document, which ends in a state. -/
structure Settles (document result : Document) (after : State) : Prop where
  inv : ledger.Inv after
  later : ledger.Later (start config document) after
  outside : document.Related (ledger.Done after) result
  listed : ledger.Listed (fun pointer => document.Loses pointer) after
  schemas : result.components.schemas = after.registry.schemas
  components : ∃ done added, after.registry.schemas = done ++ added ∧
    Members.Related (fun _ => ledger.Becomes after (policyFor config false) .component)
      document.components.schemas done

end Ledger

/-- The document that a pass ends with. -/
def finished (document : Document) (paths : List (String × PathItem)) (state : State) : Document :=
  { document with
    paths
    components :=
      { document.components with
        schemas := state.registry.schemas
        requestBodies := state.requestBodies
        responses := state.responses } }

/-- What is said of the run over a document is said of the outcome of a pass. -/
theorem flatten_of_yields {config : Config} {document : Document}
    {post : List (String × PathItem) → State → Prop}
    (yields : Yields (visitDocument config document) (start config document) post) :
    ∃ outcome paths after, document.flatten config = .ok outcome ∧ post paths after ∧
      outcome.document = finished document paths after ∧ outcome.report = after.report ∧
        outcome.extractions = after.extractions := by
  rcases yields with ⟨paths, after, run, holds⟩
  rw [Document.flatten, run]
  exact ⟨_, paths, after, rfl, holds, rfl, rfl, rfl⟩

namespace Ledger

variable {config : Config} (ledger : Ledger config)

/-- A pass over a document runs to its end, and what it does is as the ledger says. -/
theorem visitDocument {document : Document} (inv : ledger.Inv (start config document))
    (distinct : Members.Distinct document.components.schemas)
    (allows : ledger.Allows fun pointer => document.Loses pointer)
    (roots : document.Related (fun enums schema other =>
      other = schema ∧ ledger.Fits (start config document) (policyFor config enums) .slot schema)
      document)
    (components : ∀ name schema, (name, schema) ∈ document.components.schemas →
      ledger.Fits (start config document) (policyFor config false) .component schema) :
    Yields (Flatten.visitDocument config document) (start config document) fun paths after =>
      ledger.Settles document (finished document paths after) after := by
  have pending : document.Related (ledger.Pending (start config document)) document :=
    roots.mono fun _ _ _ fits => ⟨fits.2, Or.inl fits.1⟩
  have stands : ledger.Stands document (start config document) := ⟨inv, pending.requestBodies, rfl⟩
  refine yields_bind (ledger.visitPaths (fun _ item _ => ledger.visitPathItem item) stands
    (fun _ _ present pointer lost => allows pointer (Document.Loses.path present lost))
    pending.paths) ?_
  rintro paths second ⟨first, pathsDone⟩
  apply yields_get
  refine yields_bind (ledger.visitComponentBodies first.stands
    fun _ _ present pointer lost => allows pointer (Document.Loses.requestBody present lost)) ?_
  rintro bodies third ⟨next, bodiesDone⟩
  refine yields_bind (yields_modify (fun _ after =>
    ledger.Proceeds document third after ∧ after.requestBodies = bodies)
    ⟨next.stands.proceeds_of_bodies (bodiesDone.mono fun _ _ _ _ done => done.related.mono
      fun _ _ _ holds => holds.mono fun _ _ _ => pending_of_done), rfl⟩) ?_
  rintro _ fourth ⟨set, bodiesSet⟩
  apply yields_get
  have untilFourth := (ledger.along document).trans first
    ((ledger.along document).trans next set)
  have responsesPending : Members.Related
      (fun _ => RefOr.Related (Response.Related (ledger.Pending fourth)))
      document.components.responses fourth.responses := by
    rw [set.stands.responses]
    exact pending.responses.mono fun _ _ _ _ fits => fits.mono fun _ _ _ holds =>
      holds.mono fun _ _ _ => pending_later untilFourth.later
  refine yields_bind (ledger.visitComponentResponses set.stands
    (fun _ _ present pointer lost => allows pointer (Document.Loses.response present lost))
    responsesPending) ?_
  rintro responses fifth ⟨advances, responsesDone⟩
  have untilFifth := (ledger.along document).trans untilFourth
    (set.stands.proceeds_of_advances advances)
  have same : fifth.SameWork { fifth with responses } := ⟨rfl, rfl, rfl⟩
  rcases ledger.sameWork advances.inv same with ⟨holds, changed⟩
  apply yields_bind (yields_modify (fun _ after => after = { fifth with responses }) rfl)
  rintro _ _ rfl
  have untilLast := ledger.later_trans untilFifth.later changed
  rcases untilFifth.grows.schemas with ⟨added, schemas⟩
  have grouped : fifth.registry.schemas = [] ++ document.components.schemas ++ added := schemas
  have original : ∀ name schema, (name, schema) ∈ document.components.schemas →
      Members.get? name fifth.registry.initial = some schema := by
    rw [untilFifth.grows.initial]
    exact fun name schema present => distinct.get?_eq_some present
  refine yields_bind (ledger.visitComponents holds grouped distinct original
    fun name schema present => ledger.fits_later untilLast (components name schema present)) ?_
  rintro _ last ⟨ends, later, same, done, more, split, related⟩
  have sinceResponses := ledger.later_trans changed later
  have sinceBodies := ledger.later_trans set.later
    (ledger.later_trans advances.later sinceResponses)
  have sincePaths := ledger.later_trans next.later sinceBodies
  refine yields_pure ⟨ends, ledger.later_trans untilLast later, ⟨rfl, ?_, ?_, ?_, rfl, rfl⟩, ?_,
    rfl, done, more, split, related⟩
  · exact pathsDone.mono fun _ _ _ _ done => (done.later sincePaths).related
  · have kept : last.requestBodies = bodies :=
      same.requestBodies.trans (advances.requestBodies.trans bodiesSet)
    rw [show (finished document paths last).components.requestBodies = bodies from kept]
    exact bodiesDone.mono fun _ _ _ _ done => done.related.mono fun _ _ _ holds => holds.mono
      fun _ _ _ => done_later sinceBodies
  · rw [show (finished document paths last).components.responses = responses from same.responses]
    exact responsesDone.mono fun _ _ _ _ done => done.related.mono fun _ _ _ holds => holds.mono
      fun _ _ _ => done_later sinceResponses
  · intro pointer lost
    cases lost with
    | path present lost =>
        rcases pathsDone.exists_right present with ⟨_, _, done⟩
        exact (done.later sincePaths).listed pointer lost
    | requestBody present lost =>
        rcases bodiesDone.exists_right present with ⟨_, _, done⟩
        exact ledger.lists_later sinceBodies (done.listed pointer lost)
    | response present lost =>
        rcases responsesDone.exists_right present with ⟨_, _, done⟩
        exact ledger.lists_later sinceResponses (done.listed pointer lost)

/-- A pass over a document has an outcome, and what it does is as the ledger says. -/
theorem flatten {document : Document} (inv : ledger.Inv (start config document))
    (distinct : Members.Distinct document.components.schemas)
    (allows : ledger.Allows fun pointer => document.Loses pointer)
    (roots : document.Related (fun enums schema other =>
      other = schema ∧ ledger.Fits (start config document) (policyFor config enums) .slot schema)
      document)
    (components : ∀ name schema, (name, schema) ∈ document.components.schemas →
      ledger.Fits (start config document) (policyFor config false) .component schema) :
    ∃ outcome after, document.flatten config = .ok outcome ∧
      ledger.Settles document outcome.document after ∧ outcome.report = after.report ∧
        outcome.extractions = after.extractions := by
  obtain ⟨outcome, paths, after, run, settles, document, report, extractions⟩ :=
    flatten_of_yields (ledger.visitDocument inv distinct allows roots components)
  exact ⟨outcome, after, run, document ▸ settles, report, extractions⟩

end Ledger

namespace Account

variable {config : Config} (account : Account config)

/-- A schema outside the component schemas has been visited. -/
def Done (state : State) (enums : Bool) (schema result : Schema) : Prop :=
  account.Fits (policyFor config enums) .slot schema ∧
    account.Becomes state (policyFor config enums) .slot schema result

/-- What an account says of a whole pass over a document, which ends in a state. -/
structure Settles (document result : Document) (after : State) : Prop where
  inv : account.Inv after
  later : account.Later (start config document) after
  outside : document.Related (account.Done after) result
  schemas : result.components.schemas = after.registry.schemas
  components : ∃ done added, after.registry.schemas = done ++ added ∧
    Members.Related (fun _ => account.Becomes after (policyFor config false) .component)
      document.components.schemas done

variable {account} in
theorem Settles.ofLedger {document result : Document} {after : State}
    (settles : account.Settles document result after) :
    account.ledger.Settles document result after :=
  ⟨settles.inv, settles.later, settles.outside, fun _ _ => trivial, settles.schemas,
    settles.components⟩

section Passes

variable {document : Document} (inv : account.Inv (start config document))
  (distinct : Members.Distinct document.components.schemas)
  (roots : document.Related (fun enums schema other =>
    other = schema ∧ account.Fits (policyFor config enums) .slot schema) document)
  (components : ∀ name schema, (name, schema) ∈ document.components.schemas →
    account.Fits (policyFor config false) .component schema)

include inv distinct roots components

/-- A pass over a document runs to its end, and what it does is as the account says. -/
theorem visitDocument :
    Yields (Flatten.visitDocument config document) (start config document) fun paths after =>
      account.Settles document (finished document paths after) after :=
  (account.ledger.visitDocument inv distinct (fun _ _ => trivial) roots components).mono
    fun _ _ settles => ⟨settles.inv, settles.later, settles.outside, settles.schemas,
      settles.components⟩

/-- A pass over a document has an outcome, and what it does is as the account says. -/
theorem flatten :
    ∃ outcome after, document.flatten config = .ok outcome ∧
      account.Settles document outcome.document after ∧ outcome.report = after.report ∧
        outcome.extractions = after.extractions := by
  obtain ⟨outcome, paths, after, run, settles, result, report, extractions⟩ :=
    flatten_of_yields (account.visitDocument inv distinct roots components)
  exact ⟨outcome, after, run, result ▸ settles, report, extractions⟩

end Passes

end Account

end SchemaLift.Flatten
