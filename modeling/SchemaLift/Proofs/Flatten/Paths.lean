import SchemaLift.Proofs.Flatten.Contents

/-!
# Visits of path items

A pass over a document goes from one state to the next (`Ledger.along`). What a ledger says of the
visit of one schema carries over to the path items of the document (`Ledger.visitPathItem`), and so
does what it says of references outside schemas. A component request body is visited for the
operations that refer to it, so its schemas are to be visited still or have been (`Ledger.Stands`).
-/

namespace SchemaLift.Flatten

/-! ## Visits of maps -/

theorem visitOperations_eq (config : Config) (path : String)
    (operations : List (Method × Operation)) :
    visitOperations config path operations =
      visitValues (visitOperation config path) operations := by
  induction operations with
  | nil => rfl
  | cons entry rest ih =>
      rcases entry with ⟨method, operation⟩
      simp only [visitOperations, visitValues, ih]

theorem visitPaths_eq (config : Config) (items : List (String × PathItem)) :
    visitPaths config items = visitValues (visitPathItem config) items := by
  induction items with
  | nil => rfl
  | cons entry rest ih =>
      rcases entry with ⟨path, item⟩
      simp only [visitPaths, visitValues, ih]

/-- Flatten a callback. -/
def visitCallback (config : Config) : RefOr Callback → Step (RefOr Callback)
  | .reference target => pure (.reference target)
  | .item callback => do
    let expressions ← visitPaths config callback.expressions
    pure (.item ⟨expressions⟩)

theorem visitCallbacks_eq (config : Config) (callbacks : List (String × RefOr Callback)) :
    visitCallbacks config callbacks =
      visitValues (fun _ => visitCallback config) callbacks := by
  induction callbacks with
  | nil => rfl
  | cons entry rest ih =>
      rcases entry with ⟨name, callback⟩
      cases callback with
      | reference target => simp only [visitCallbacks, visitValues, visitCallback, ih, pure_bind]
      | item callback =>
          rcases callback with ⟨expressions⟩
          simp only [visitCallbacks, visitValues, visitCallback, ih, bind_assoc, pure_bind]

/-- Visit what is given in place, and look a reference up. -/
def visitEntry {α : Type} (check : Reference → Step Unit) (visit : α → Step α) :
    RefOr α → Step (RefOr α)
  | .item value => do pure (.item (← visit value))
  | .reference target => do
    check target
    pure (.reference target)

theorem visitOwnResponse_eq (config : Config) (base status : String) :
    visitOwnResponse config base status =
      visitEntry checkResponse
        (visitResponse config (Naming.response (base ++ "_" ++ status))) := by
  funext response
  cases response <;> rfl

theorem visitComponentResponse_eq (config : Config) :
    visitComponentResponse config =
      visitEntry checkResponse (visitResponse config Naming.componentResponse) := by
  funext response
  cases response <;> rfl

theorem visitComponentBody_eq (config : Config) (name : String) :
    visitComponentBody config name =
      visitEntry checkRequestBody (visitRequestBody config name) := by
  funext body
  cases body <;> rfl

theorem get?_of_bodyAt? {bodies : Members (RefOr RequestBody)} {hops : Nat} {pointer name : String}
    {body : RequestBody} (reached : bodyAt? bodies hops pointer = some (name, body)) :
    Members.get? name bodies = some (.item body) := by
  induction hops generalizing pointer with
  | zero => simp [bodyAt?] at reached
  | succ hops ih =>
      rw [bodyAt?] at reached
      split at reached
      · split at reached
        · next found =>
            cases reached
            exact found
        · exact ih reached
        · contradiction
      · contradiction

namespace Ledger

variable {config : Config} (ledger : Ledger config)

/-- The pointers that are lost may be found to lead nowhere. -/
def Allows (lost : String → Prop) : Prop :=
  ∀ pointer, lost pointer → ledger.Loses pointer

/-- The pointers that are lost have been found to lead nowhere. -/
def Listed (lost : String → Prop) (state : State) : Prop :=
  ∀ pointer, lost pointer → ledger.Lists state pointer

variable {ledger} {before after : State}

theorem listed_later (later : ledger.Later before after) {lost : String → Prop}
    (listed : ledger.Listed lost before) : ledger.Listed lost after :=
  fun pointer inside => ledger.lists_later later (listed pointer inside)

variable (ledger)

/-! ## States of a pass over a document -/

/-- A pass over a document has got to a state: its responses are as they were, and the schemas of
its request bodies are still to be visited or have been. -/
structure Stands (document : Document) (state : State) : Prop where
  inv : ledger.Inv state
  requestBodies : Members.Related
    (fun _ => RefOr.Related (RequestBody.Related (ledger.Pending state)))
    document.components.requestBodies state.requestBodies
  responses : state.responses = document.components.responses

/-- A pass over a document goes on from one state to another. -/
structure Proceeds (document : Document) (before after : State) : Prop where
  stands : ledger.Stands document after
  later : ledger.Later before after
  grows : before.Grows after

variable {ledger} {document : Document}

theorem Stands.proceeds_of_advances (stands : ledger.Stands document before)
    (advances : ledger.Advances before after) : ledger.Proceeds document before after := by
  refine ⟨⟨advances.inv, ?_, advances.responses.trans stands.responses⟩, advances.later,
    advances.grows⟩
  rw [advances.requestBodies]
  exact stands.requestBodies.mono fun _ _ _ _ body => body.mono fun _ _ _ fits =>
    fits.mono fun _ _ _ => pending_later advances.later

/-- Request bodies may be replaced by visited ones. -/
theorem Stands.proceeds_of_bodies (stands : ledger.Stands document before)
    {bodies : List (String × RefOr RequestBody)}
    (pending : Members.Related
      (fun _ => RefOr.Related (RequestBody.Related (ledger.Pending before)))
      document.components.requestBodies bodies) :
    ledger.Proceeds document before { before with requestBodies := bodies } := by
  have same : before.SameWork { before with requestBodies := bodies } := ⟨rfl, rfl, rfl⟩
  rcases ledger.sameWork stands.inv same with ⟨inv, later⟩
  refine ⟨⟨inv, ?_, stands.responses⟩, later, State.Grows.of_registry rfl⟩
  exact pending.mono fun _ _ _ _ fits => fits.mono fun _ _ _ holds => holds.mono fun _ _ _ =>
    pending_later later

variable (ledger document)

/-- The course of a pass over a document. -/
def along : Course where
  Valid := ledger.Stands document
  Goes := ledger.Proceeds document
  refl := fun stands => stands.proceeds_of_advances (Advances.refl stands.inv)
  trans := fun first second =>
    ⟨second.stands, ledger.later_trans first.later second.later, first.grows.trans second.grows⟩
  valid := Proceeds.stands

/-- The course of a pass over a document while its request bodies stay as they are. -/
def beside : Course where
  Valid := ledger.Stands document
  Goes before after := ledger.Advances before after ∧ ledger.Stands document after
  refl := fun stands => ⟨Advances.refl stands.inv, stands⟩
  trans := fun first second => ⟨first.1.trans second.1, second.2⟩
  valid := And.right

variable {ledger document}

theorem Stands.beside_of_advances (stands : ledger.Stands document before)
    (advances : ledger.Advances before after) : (ledger.beside document).Goes before after :=
  ⟨advances, (stands.proceeds_of_advances advances).stands⟩

/-! ## References outside schemas -/

/-- A pointer that is lost is reported and listed. -/
theorem Stands.of_checks {leads : String → Prop} {pointer : String}
    (stands : ledger.Stands document before) (allows : ¬leads pointer → ledger.Loses pointer)
    (checks : before.Checks (leads pointer) pointer after) :
    ledger.Advances before after ∧ (¬leads pointer → ledger.Lists after pointer) := by
  rcases checks with ⟨found, rfl⟩ | ⟨lost, reports⟩
  · exact ⟨Advances.refl stands.inv, fun lost => absurd found lost⟩
  · obtain ⟨inv, later, lists⟩ := ledger.lost stands.inv (allows lost) reports
    exact ⟨⟨reports.toSameBodies, inv, later, State.Grows.of_registry reports.registry⟩,
      fun _ => lists⟩

theorem Stands.hasRequestBody (stands : ledger.Stands document before) :
    Pointer.Found Pointer.requestBodies (Members.keys before.requestBodies) =
      document.components.HasRequestBody := by
  rw [stands.requestBodies.keys_eq]
  rfl

theorem Stands.hasResponse (stands : ledger.Stands document before) :
    Pointer.Found Pointer.responses (Members.keys before.responses) =
      document.components.HasResponse := by
  rw [stands.responses]
  rfl

variable (ledger) in
/-- What is given in place has been visited, and the pointer of a reference has been listed if it is
lost. -/
structure EntryDone {α : Type} (leads : String → Prop) (done : State → α → α → Prop)
    (state : State) (entry result : RefOr α) : Prop where
  related : RefOr.Related (done state) entry result
  listed : ledger.Listed (fun pointer => entry.Loses leads pointer) state

section Entries

variable {α : Type} {leads : String → Prop} {done : State → α → α → Prop} {entry : RefOr α}

theorem EntryDone.later {result : RefOr α}
    (visited : ledger.EntryDone leads done before entry result)
    (keeps : ∀ value result, done before value result → done after value result)
    (later : ledger.Later before after) : ledger.EntryDone leads done after entry result :=
  ⟨visited.related.mono fun _ _ _ => keeps _ _, listed_later later visited.listed⟩

theorem Stands.visitEntry {check : Reference → Step Unit} {visit : α → Step α}
    {pending : α → α → Prop} {current : RefOr α} (stands : ledger.Stands document before)
    (allows : ledger.Allows fun pointer => entry.Loses leads pointer)
    (checks : ∀ target, Yields (check target) before fun _ after =>
      before.Checks (leads target.pointer) target.pointer after)
    (visits : ∀ value now, pending value now → Yields (visit now) before fun result after =>
      ledger.Advances before after ∧ done after value result)
    (fits : RefOr.Related pending entry current) :
    Yields (Flatten.visitEntry check visit current) before fun result after =>
      ledger.Advances before after ∧ ledger.EntryDone leads done after entry result := by
  cases fits with
  | reference target =>
      refine yields_bind (checks target) fun _ after checked => ?_
      have allowed : ¬leads target.pointer → ledger.Loses target.pointer :=
        fun lost => allows target.pointer ⟨rfl, lost⟩
      rcases stands.of_checks allowed checked with ⟨advances, lists⟩
      refine yields_pure ⟨advances, RefOr.Related.reference target, ?_⟩
      rintro _ ⟨rfl, lost⟩
      exact lists lost
  | item pending =>
      refine yields_bind (visits _ _ pending) ?_
      rintro result after ⟨advances, visited⟩
      exact yields_pure ⟨advances, RefOr.Related.item visited, fun _ lost => lost.elim⟩

end Entries

variable (ledger)

/-- A response, or a reference to one, has been visited. -/
abbrev ResponseDone (document : Document) : State → RefOr Response → RefOr Response → Prop :=
  ledger.EntryDone document.components.HasResponse fun state => Response.Related (ledger.Done state)

/-- A component request body, or a reference to one, has been visited. -/
abbrev BodyDone (document : Document) :
    State → RefOr RequestBody → RefOr RequestBody → Prop :=
  ledger.EntryDone document.components.HasRequestBody
    fun state => RequestBody.Related (ledger.Done state)

/-- A response is visited in the same way wherever it stands. -/
theorem visitResponseEntry {response current : RefOr Response} (derived : String)
    (stands : ledger.Stands document before)
    (allows : ledger.Allows fun pointer =>
      response.Loses document.components.HasResponse pointer)
    (pending : RefOr.Related (Response.Related (ledger.Pending before)) response current) :
    Yields (visitEntry checkResponse (Flatten.visitResponse config derived) current) before
      fun result after =>
        ledger.Advances before after ∧ ledger.ResponseDone document after response result := by
  refine stands.visitEntry allows (fun target => ?_)
    (fun _ _ => ledger.visitResponse derived stands.inv) pending
  rw [← stands.hasResponse]
  exact yields_checkResponse target before

theorem visitComponentBody {body current : RefOr RequestBody} (name : String)
    (stands : ledger.Stands document before)
    (allows : ledger.Allows fun pointer => body.Loses document.components.HasRequestBody pointer)
    (pending : RefOr.Related (RequestBody.Related (ledger.Pending before)) body current) :
    Yields (Flatten.visitComponentBody config name current) before fun result after =>
      ledger.Advances before after ∧ ledger.BodyDone document after body result := by
  rw [visitComponentBody_eq]
  refine stands.visitEntry allows (fun target => ?_)
    (fun _ _ => ledger.visitRequestBody name stands.inv) pending
  rw [← stands.hasRequestBody]
  exact yields_checkRequestBody target before

theorem visitOwnResponses {responses currents : List (String × RefOr Response)} (base : String)
    (stands : ledger.Stands document before)
    (allows : ∀ status response, (status, response) ∈ responses →
      ledger.Allows fun pointer => response.Loses document.components.HasResponse pointer)
    (pending : Members.Related (fun _ => RefOr.Related (Response.Related (ledger.Pending before)))
      responses currents) :
    Yields (visitValues (visitOwnResponse config base) currents) before fun results after =>
      ledger.Proceeds document before after ∧
        Members.Related (fun _ => ledger.ResponseDone document after) responses results := by
  refine (ledger.along document).visitValues
    (fun state _ => RefOr.Related (Response.Related (ledger.Pending state)))
    (fun state _ => ledger.ResponseDone document state)
    (fun proceeds fits => fits.mono fun _ _ _ holds => holds.mono fun _ _ _ =>
      pending_later proceeds.later)
    (fun proceeds done => done.later
      (fun _ _ holds => holds.mono fun _ _ _ => done_later proceeds.later) proceeds.later)
    ?_ stands pending
  intro status response current before present stands fits
  rw [visitOwnResponse_eq]
  exact (ledger.visitResponseEntry _ stands (allows status response present) fits).mono
    fun _ _ ends => ends.imp_left stands.proceeds_of_advances

/-- The body of an operation that is given by a reference is visited where it is, or the reference
is reported. -/
theorem visitBodyReference (base : String) (target : Reference)
    (stands : ledger.Stands document before)
    (allows : ¬document.components.ReachesBody target.pointer → ledger.Loses target.pointer) :
    Yields (Flatten.visitBodyReference config base target) before fun _ after =>
      ledger.Proceeds document before after ∧
        (¬document.components.ReachesBody target.pointer → ledger.Lists after target.pointer) := by
  have reaches : document.components.ReachesBody target.pointer ↔
      ∃ name body, bodyAt? before.requestBodies hopLimit target.pointer = some (name, body) :=
    (leadsToBody_iff_of_related stands.requestBodies).trans exists_bodyAt?_iff.symm
  refine yields_get ?_
  split
  · next name body reached =>
      have found := get?_of_bodyAt? reached
      rcases stands.requestBodies.exists_get?_left found with ⟨original, there, fits⟩
      cases fits with
      | item pending =>
          refine yields_bind (ledger.visitRequestBody base stands.inv pending) ?_
          rintro result middle ⟨advances, done⟩
          have proceeds := stands.proceeds_of_advances advances
          refine yields_modify _ ⟨?_, fun lost => absurd (reaches.mpr ⟨name, body, reached⟩) lost⟩
          refine (ledger.along document).trans proceeds (proceeds.stands.proceeds_of_bodies ?_)
          have visited := done.mono fun _ _ _ => pending_of_done
          exact proceeds.stands.requestBodies.set there (RefOr.Related.item visited)
  · next lost =>
      refine (yields_noteUnresolved _ before).mono fun _ after reports => ?_
      refine (stands.of_checks allows (Or.inr ⟨?_, reports⟩)).imp_left stands.proceeds_of_advances
      rw [reaches, lost]
      simp

theorem visitOwnBody {body current : Option (RefOr RequestBody)} (base : String)
    (stands : ledger.Stands document before)
    (allows : ∀ own, body = some own → ledger.Allows fun pointer =>
      own.Loses document.components.ReachesBody pointer)
    (pending : Option.Rel (RefOr.Related (RequestBody.Related (ledger.Pending before))) body
      current) :
    Yields (Flatten.visitOwnBody config base current) before fun result after =>
      ledger.Proceeds document before after ∧
        Option.Rel (RefOr.Related (RequestBody.Related (ledger.Done after))) body result ∧
        ∀ own, body = some own → ledger.Listed (fun pointer =>
          own.Loses document.components.ReachesBody pointer) after := by
  cases pending with
  | none => exact yields_pure ⟨(ledger.along document).refl stands, Option.Rel.none, by simp⟩
  | some pending =>
      cases pending with
      | reference target =>
          have allowed : ¬document.components.ReachesBody target.pointer →
              ledger.Loses target.pointer := fun lost => allows _ rfl _ ⟨rfl, lost⟩
          refine yields_bind (ledger.visitBodyReference base target stands allowed) ?_
          rintro _ after ⟨proceeds, lists⟩
          refine yields_pure ⟨proceeds, Option.Rel.some (RefOr.Related.reference target), ?_⟩
          rintro _ same _ lost
          cases same
          rcases lost with ⟨rfl, lost⟩
          exact lists lost
      | item pending =>
          refine yields_bind (ledger.visitRequestBody base stands.inv pending) ?_
          rintro result after ⟨advances, done⟩
          refine yields_pure ⟨stands.proceeds_of_advances advances,
            Option.Rel.some (RefOr.Related.item done), ?_⟩
          rintro _ same _ lost
          cases same
          exact lost.elim

/-! ## Path items -/

/-- A path item has been visited: its schemas are done, and the pointers that it loses are
listed. -/
structure ItemDone (document : Document) (state : State) (item result : PathItem) : Prop where
  related : item.Related (ledger.Done state) result
  listed : ledger.Listed (fun pointer => item.Loses document.components pointer) state

/-- A visit of a path item does what the ledger says of its schemas and references. -/
def VisitsItem (document : Document) (item : PathItem) : Prop :=
  ∀ path current before, ledger.Stands document before →
    ledger.Allows (fun pointer => item.Loses document.components pointer) →
    item.Related (ledger.Pending before) current →
    Yields (Flatten.visitPathItem config path current) before fun result after =>
      ledger.Proceeds document before after ∧ ledger.ItemDone document after item result

variable {ledger}

theorem ItemDone.later {item result : PathItem} (done : ledger.ItemDone document before item result)
    (later : ledger.Later before after) : ledger.ItemDone document after item result :=
  ⟨done.related.mono fun _ _ _ => done_later later, listed_later later done.listed⟩

variable (ledger)

theorem visitPaths {items currents : List (String × PathItem)}
    (each : ∀ path item, (path, item) ∈ items → ledger.VisitsItem document item)
    (stands : ledger.Stands document before)
    (allows : ∀ path item, (path, item) ∈ items →
      ledger.Allows fun pointer => item.Loses document.components pointer)
    (pending : Members.Related (fun _ => PathItem.Related (ledger.Pending before)) items
      currents) :
    Yields (Flatten.visitPaths config currents) before fun results after =>
      ledger.Proceeds document before after ∧
        Members.Related (fun _ => ledger.ItemDone document after) items results := by
  rw [visitPaths_eq]
  refine (ledger.along document).visitValues
    (fun state _ => PathItem.Related (ledger.Pending state))
    (fun state _ => ledger.ItemDone document state)
    (fun proceeds fits => fits.mono fun _ _ _ => pending_later proceeds.later)
    (fun proceeds done => done.later proceeds.later) ?_ stands pending
  intro path item current before present stands fits
  exact each path item present path current before stands (allows path item present) fits

/-- A callback has been visited. -/
def CallbackDone (document : Document) (state : State) : RefOr Callback → RefOr Callback → Prop :=
  RefOr.Related fun callback result =>
    Members.Related (fun _ => ledger.ItemDone document state) callback.expressions
      result.expressions

theorem visitCallbacks {callbacks currents : List (String × RefOr Callback)}
    (each : ∀ name callback, (name, .item callback) ∈ callbacks →
      ∀ path item, (path, item) ∈ callback.expressions → ledger.VisitsItem document item)
    (stands : ledger.Stands document before)
    (allows : ∀ name callback, (name, .item callback) ∈ callbacks →
      ∀ path item, (path, item) ∈ callback.expressions →
        ledger.Allows fun pointer => item.Loses document.components pointer)
    (pending : Members.Related
      (fun _ => RefOr.Related (Callback.Related (ledger.Pending before))) callbacks currents) :
    Yields (Flatten.visitCallbacks config currents) before fun results after =>
      ledger.Proceeds document before after ∧
        Members.Related (fun _ => ledger.CallbackDone document after) callbacks results := by
  rw [visitCallbacks_eq]
  refine (ledger.along document).visitValues
    (fun state _ => RefOr.Related (Callback.Related (ledger.Pending state)))
    (fun state _ => ledger.CallbackDone document state)
    (fun proceeds fits => fits.mono fun _ _ _ holds => holds.mono fun _ _ _ =>
      pending_later proceeds.later)
    (fun proceeds done => RefOr.Related.mono done fun _ _ _ items =>
      items.mono fun _ _ _ _ item => item.later proceeds.later) ?_ stands pending
  intro name callback current before present stands fits
  cases fits with
  | reference target =>
      exact yields_pure ⟨(ledger.along document).refl stands, RefOr.Related.reference target⟩
  | item fits =>
      rcases fits with ⟨expressions⟩
      refine yields_bind (ledger.visitPaths (each name _ present) stands (allows name _ present)
        expressions) ?_
      rintro results after ⟨proceeds, done⟩
      exact yields_pure ⟨proceeds, RefOr.Related.item done⟩

/-- An operation has been visited, with the path items in its callbacks. -/
structure OperationDone (document : Document) (state : State) (operation result : Operation) :
    Prop where
  related : operation.Related (ledger.Done state) result
  listed : ledger.Listed (fun pointer => operation.Loses document.components pointer) state
  inner : ∀ item ∈ operation.inner,
    ledger.Listed (fun pointer => item.Loses document.components pointer) state

theorem visitOperation {operation current : Operation} (path : String) (method : Method)
    (each : ∀ item ∈ operation.inner, ledger.VisitsItem document item)
    (stands : ledger.Stands document before)
    (allows : ledger.Allows fun pointer => operation.Loses document.components pointer)
    (innerAllows : ∀ item ∈ operation.inner,
      ledger.Allows fun pointer => item.Loses document.components pointer)
    (pending : operation.Related (ledger.Pending before) current) :
    Yields (Flatten.visitOperation config path method current) before fun result after =>
      ledger.Proceeds document before after ∧
        ledger.OperationDone document after operation result := by
  rcases pending with ⟨operationId, parameters, requestBody, responses, callbacks, extra⟩
  obtain ⟨currentId, currentParameters, currentBody, currentResponses, currentCallbacks,
    currentExtra⟩ := current
  refine yields_bind (ledger.visitParameters _ stands.inv parameters) ?_
  rintro ownParameters second ⟨advances, parametersDone⟩
  have first := stands.proceeds_of_advances advances
  refine yields_bind (ledger.visitOwnBody _ first.stands
    (fun _ present pointer lost => allows pointer (Operation.Loses.requestBody present lost))
    (optionRel_mono requestBody fun _ _ fits => fits.mono fun _ _ _ holds =>
      holds.mono fun _ _ _ => pending_later first.later)) ?_
  rintro ownBody third ⟨next, bodyDone, bodyListed⟩
  have firsts := (ledger.along document).trans first next
  refine yields_bind (ledger.visitOwnResponses _ next.stands
    (fun _ _ present pointer lost => allows pointer (Operation.Loses.response present lost))
    (responses.mono fun _ _ _ _ fits => fits.mono fun _ _ _ holds =>
      holds.mono fun _ _ _ => pending_later firsts.later)) ?_
  rintro ownResponses fourth ⟨later, responsesDone⟩
  have nexts := (ledger.along document).trans next later
  refine yields_bind (ledger.visitCallbacks (fun name callback called path item listed =>
    each item (Operation.mem_inner called listed)) later.stands
    (fun name callback called path item listed =>
      innerAllows item (Operation.mem_inner called listed))
    (callbacks.mono fun _ _ _ _ fits => fits.mono fun _ _ _ holds => holds.mono fun _ _ _ =>
      pending_later (ledger.later_trans first.later nexts.later))) ?_
  rintro ownCallbacks last ⟨latest, callbacksDone⟩
  have rests := (ledger.along document).trans later latest
  refine yields_pure ⟨(ledger.along document).trans firsts rests, ?_, ?_, ?_⟩
  · refine Operation.Related.intro operationId ?_ ?_ ?_ ?_ extra
    · exact parametersDone.imp fun _ _ fits => fits.mono fun _ _ _ holds => holds.mono
        fun _ _ _ => done_later (ledger.later_trans next.later rests.later)
    · exact optionRel_mono bodyDone fun _ _ fits => fits.mono fun _ _ _ holds =>
        holds.mono fun _ _ _ => done_later rests.later
    · exact responsesDone.mono fun _ _ _ _ done => done.related.mono fun _ _ _ holds =>
        holds.mono fun _ _ _ => done_later latest.later
    · exact callbacksDone.mono fun _ _ _ _ done => RefOr.Related.mono done fun _ _ _ items =>
        Callback.Related.intro (items.mono fun _ _ _ _ item => item.related)
  · intro pointer lost
    cases lost with
    | requestBody present lost =>
        exact ledger.lists_later rests.later (bodyListed _ present pointer lost)
    | response present lost =>
        rcases responsesDone.exists_right present with ⟨_, _, done⟩
        exact ledger.lists_later latest.later (done.listed pointer lost)
  · intro item inside
    rcases Operation.exists_of_mem_inner inside with ⟨name, callback, path, called, listed⟩
    rcases callbacksDone.exists_right called with ⟨_, _, done⟩
    cases done with
    | item items =>
        rcases items.exists_right listed with ⟨_, _, done⟩
        exact done.listed

/-- A visit of a path item does what the ledger says of its schemas and references. -/
theorem visitPathItem (item : PathItem) : ledger.VisitsItem document item := by
  induction item using PathItem.induction with
  | step item ih =>
      intro path current before stands allows pending
      have parameters : List.Forall₂ (RefOr.Related (Parameter.Related (ledger.Pending before)))
          item.parameters current.parameters := by
        cases pending
        assumption
      rcases current with ⟨currentParameters, currentOperations, currentExtra⟩
      refine yields_bind (ledger.visitParameters _ stands.inv parameters) ?_
      rintro ownParameters middle ⟨advances, parametersDone⟩
      have first := stands.proceeds_of_advances advances
      rcases pending.mono fun _ _ _ => pending_later first.later with ⟨_, operations, extra⟩
      rw [visitOperations_eq]
      refine yields_bind ((ledger.along document).visitValues
        (fun state _ => Operation.Related (ledger.Pending state))
        (fun state _ => ledger.OperationDone document state)
        (fun proceeds fits => fits.mono fun _ _ _ => pending_later proceeds.later)
        (fun proceeds done => ⟨done.related.mono fun _ _ _ => done_later proceeds.later,
          listed_later proceeds.later done.listed,
          fun item inside => listed_later proceeds.later (done.inner item inside)⟩)
        (fun method operation _ _ present stands fits => ledger.visitOperation path method
          (fun inner inside => ih inner (PathItem.mem_inner present inside)) stands
          (fun pointer lost => allows pointer (PathItem.Loses.operation present lost))
          (fun inner inside pointer lost =>
            allows pointer (PathItem.Loses.inner (PathItem.mem_inner present inside) lost)) fits)
        first.stands operations) ?_
      rintro ownOperations after ⟨second, operationsDone⟩
      refine yields_pure ⟨(ledger.along document).trans first second, ?_, ?_⟩
      · refine PathItem.Related.intro ?_ (operationsDone.mono fun _ _ _ _ done => done.related)
          extra
        exact parametersDone.imp fun _ _ fits => fits.mono fun _ _ _ holds => holds.mono
          fun _ _ _ => done_later second.later
      · intro pointer lost
        cases lost with
        | operation present lost =>
            rcases operationsDone.exists_right present with ⟨_, _, done⟩
            exact done.listed pointer lost
        | inner present lost =>
            rcases PathItem.exists_of_mem_inner present with ⟨method, operation, entry, inside⟩
            rcases operationsDone.exists_right entry with ⟨_, _, done⟩
            exact done.inner _ inside pointer lost

end Ledger

end SchemaLift.Flatten
