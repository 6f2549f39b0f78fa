import SchemaLift.Proofs.Document.Related
import SchemaLift.Proofs.Flatten.Account

/-!
# Visits of contents and parameters

What a ledger says of the visit of one schema carries over to the schemas of contents, request
bodies, responses and parameters. A schema outside the component schemas may be visited more than
once: it is still as it was, or has been visited before (`Ledger.Pending`), and is visited after
that (`Ledger.Done`).
-/

namespace SchemaLift.Flatten.Ledger

variable {config : Config} (ledger : Ledger config)

/-- A schema outside the component schemas has been visited. -/
def Done (state : State) (enums : Bool) (schema result : Schema) : Prop :=
  ledger.Fits state (policyFor config enums) .slot schema ∧
    ledger.Becomes state (policyFor config enums) .slot schema result

/-- The schema is as it was in the beginning, or has been visited before. -/
def Pending (state : State) (enums : Bool) (schema current : Schema) : Prop :=
  ledger.Fits state (policyFor config enums) .slot schema ∧
    (current = schema ∨ ledger.Becomes state (policyFor config enums) .slot schema current)

variable {ledger} {before after : State}

theorem done_later (later : ledger.Later before after) {enums : Bool} {schema result : Schema}
    (done : ledger.Done before enums schema result) : ledger.Done after enums schema result :=
  ⟨ledger.fits_later later done.1, ledger.becomes_later later done.2⟩

theorem pending_of_done {state : State} {enums : Bool} {schema result : Schema}
    (done : ledger.Done state enums schema result) :
    ledger.Pending state enums schema result :=
  ⟨done.1, Or.inr done.2⟩

theorem pending_later (later : ledger.Later before after) {enums : Bool}
    {schema current : Schema} (pending : ledger.Pending before enums schema current) :
    ledger.Pending after enums schema current :=
  ⟨ledger.fits_later later pending.1, pending.2.imp_right (ledger.becomes_later later)⟩

variable (ledger)

/-! ## Contents -/

theorem visitRoot {enums : Bool} {schema current : Schema} (derived : String)
    (inv : ledger.Inv before)
    (pending : ledger.Pending before enums schema current) :
    Yields (Flatten.visitSchema config (policyFor config enums) .slot false derived current) before
      fun result after =>
        ledger.Advances before after ∧ ledger.Done after enums schema result := by
  rcases pending with ⟨fits, rfl | done⟩
  · refine (ledger.visitSchema _ .slot derived inv fits).mono ?_
    rintro result after ⟨advances, becomes⟩
    exact ⟨advances, ledger.fits_later advances.later fits, becomes⟩
  · refine (ledger.visitSchema _ .slot derived inv (ledger.fits_again fits done)).mono ?_
    rintro result after ⟨advances, becomes⟩
    have still := ledger.fits_later advances.later fits
    exact ⟨advances, still, ledger.again still (ledger.becomes_later advances.later done) becomes⟩

theorem visitOptional {enums : Bool} {schema current : Option Schema} (derived : String)
    (inv : ledger.Inv before)
    (pending : Option.Rel (ledger.Pending before enums) schema current) :
    Yields (Flatten.visitOptional config (policyFor config enums) derived current) before
      fun result after =>
        ledger.Advances before after ∧
          Option.Rel (ledger.Done after enums) schema result := by
  cases pending with
  | none => exact yields_pure ⟨Advances.refl inv, Option.Rel.none⟩
  | some pending =>
      refine yields_bind (ledger.visitRoot derived inv pending) ?_
      rintro result after ⟨advances, done⟩
      exact yields_pure ⟨advances, Option.Rel.some done⟩

theorem visitMedia {enums : Bool} {media current : MediaType} (derived : String)
    (inv : ledger.Inv before)
    (pending : media.Related (ledger.Pending before enums) current) :
    Yields (Flatten.visitMedia config (policyFor config enums) derived current) before
      fun result after =>
        ledger.Advances before after ∧
          media.Related (ledger.Done after enums) result := by
  refine yields_bind (ledger.visitOptional derived inv pending.schema) ?_
  rintro result after ⟨advances, done⟩
  exact yields_pure ⟨advances, done, pending.extra⟩

theorem visitContent (enums : String → Bool) {content current : Option Content}
    (derived : String) (inv : ledger.Inv before)
    (pending : ContentRelated (ledger.Pending before) enums content current) :
    Yields (Flatten.visitContent config (fun name => policyFor config (enums name)) derived current)
      before fun result after =>
        ledger.Advances before after ∧
          ContentRelated (ledger.Done after) enums content result := by
  cases pending with
  | none => exact yields_pure ⟨Advances.refl inv, Option.Rel.none⟩
  | some pending =>
      refine yields_bind (ledger.within.visitValues
        (fun state name => MediaType.Related (ledger.Pending state (enums name)))
        (fun state name => MediaType.Related (ledger.Done state (enums name)))
        (fun advances fits => ⟨optionRel_mono fits.schema fun _ _ => pending_later advances.later,
          fits.extra⟩)
        (fun advances fits => ⟨optionRel_mono fits.schema fun _ _ => done_later advances.later,
          fits.extra⟩) ?_ inv pending) ?_
      · intro name media current before _ inv fits
        exact ledger.visitMedia derived inv fits
      · rintro results after ⟨advances, done⟩
        exact yields_pure ⟨advances, Option.Rel.some done⟩

theorem visitRequestBody {body current : RequestBody} (base : String)
    (inv : ledger.Inv before)
    (pending : body.Related (ledger.Pending before) current) :
    Yields (Flatten.visitRequestBody config base current) before fun result after =>
      ledger.Advances before after ∧ body.Related (ledger.Done after) result := by
  refine yields_bind (ledger.visitContent _ _ inv pending.content) ?_
  rintro content after ⟨advances, done⟩
  exact yields_pure ⟨advances, done, pending.extra⟩

theorem visitResponse {response current : Response} (derived : String)
    (inv : ledger.Inv before)
    (pending : response.Related (ledger.Pending before) current) :
    Yields (Flatten.visitResponse config derived current) before fun result after =>
      ledger.Advances before after ∧ response.Related (ledger.Done after) result := by
  refine yields_bind (ledger.visitContent (fun _ => false) _ inv pending.content) ?_
  rintro content after ⟨advances, done⟩
  exact yields_pure ⟨advances, done, pending.extra⟩

/-! ## Parameters -/

theorem visitParameter {parameter current : RefOr Parameter} (base : String)
    (inv : ledger.Inv before)
    (pending : RefOr.Related (Parameter.Related (ledger.Pending before)) parameter current) :
    Yields (Flatten.visitParameter config base current) before fun result after =>
      ledger.Advances before after ∧
        RefOr.Related (Parameter.Related (ledger.Done after)) parameter result := by
  cases pending with
  | reference target =>
      exact yields_pure ⟨Advances.refl inv, RefOr.Related.reference target⟩
  | item pending =>
      refine yields_bind (ledger.visitOptional _ inv pending.schema) ?_
      rintro schema middle ⟨first, schemaDone⟩
      have content := pending.content.mono fun _ _ _ => pending_later first.later
      refine yields_bind (ledger.visitContent (fun _ => true) _ first.inv content) ?_
      rintro content after ⟨second, contentDone⟩
      refine yields_pure ⟨first.trans second, RefOr.Related.item ?_⟩
      exact ⟨pending.name, pending.location,
        optionRel_mono schemaDone fun _ _ => done_later second.later, contentDone, pending.extra⟩

theorem visitParameters {parameters currents : List (RefOr Parameter)} (base : String)
    (inv : ledger.Inv before)
    (pending : List.Forall₂ (RefOr.Related (Parameter.Related (ledger.Pending before))) parameters
      currents) :
    Yields (Flatten.visitParameters config base currents) before fun results after =>
      ledger.Advances before after ∧
        List.Forall₂ (RefOr.Related (Parameter.Related (ledger.Done after))) parameters
          results := by
  induction parameters generalizing currents before with
  | nil =>
      cases pending
      exact yields_pure ⟨Advances.refl inv, List.Forall₂.nil⟩
  | cons parameter rest ih =>
      cases pending with
      | cons here later =>
          refine yields_bind (ledger.visitParameter base inv here) ?_
          rintro result middle ⟨first, done⟩
          have after := later.imp fun _ _ fits => fits.mono fun _ _ _ holds =>
            holds.mono fun _ _ _ => pending_later first.later
          refine yields_bind (ih first.inv after) ?_
          rintro results last ⟨second, rests⟩
          refine yields_pure ⟨first.trans second, List.Forall₂.cons ?_ rests⟩
          exact done.mono fun _ _ _ holds => holds.mono fun _ _ _ => done_later second.later

end SchemaLift.Flatten.Ledger
