import SchemaLift.Proofs.Document.Related

/-!
# References outside schemas

A document refers to component request bodies and responses from its operations and from other
components. `Document.Loses` are the pointers of such references that lead nowhere. The request body
of an operation is followed from one component to the next, up to a number of them
(`LeadsToBody`); of all others only the first component is looked for (`Pointer.Found`).
-/

namespace SchemaLift

/-- A pointer to a category of components has one of the names. Pointers that start in another way
are not looked at. -/
def Pointer.Found (lead : String) (names : List String) (pointer : String) : Prop :=
  ∀ name, Text.dropLead? lead pointer = some name → name ∈ names

theorem Pointer.found_iff {lead pointer name : String} {names : List String}
    (cut : Text.dropLead? lead pointer = some name) :
    Pointer.Found lead names pointer ↔ name ∈ names := by
  constructor
  · intro found
    exact found name cut
  · intro present other same
    cases cut.symm.trans same
    exact present

theorem Pointer.exists_of_not_found {lead pointer : String} {names : List String}
    (lost : ¬Pointer.Found lead names pointer) :
    ∃ name, Text.dropLead? lead pointer = some name ∧ name ∉ names := by
  simpa [Pointer.Found] using lost

/-- A chain of references to request bodies ends with one that is given in place, after no more
look-ups than allowed. -/
inductive LeadsToBody (bodies : Members (RefOr RequestBody)) : Nat → String → Prop
  | item {lookups : Nat} {pointer name : String} {body : RequestBody}
      (cut : Text.dropLead? Pointer.requestBodies pointer = some name)
      (there : Members.get? name bodies = some (.item body)) :
      LeadsToBody bodies (lookups + 1) pointer
  | reference {lookups : Nat} {pointer name : String} {next : Reference}
      (cut : Text.dropLead? Pointer.requestBodies pointer = some name)
      (there : Members.get? name bodies = some (.reference next))
      (leads : LeadsToBody bodies lookups next.pointer) :
      LeadsToBody bodies (lookups + 1) pointer

namespace Components

/-- A pointer to a component request body has one that it names. -/
def HasRequestBody (components : Components) : String → Prop :=
  Pointer.Found Pointer.requestBodies (Members.keys components.requestBodies)

/-- A pointer to a component response has one that it names. -/
def HasResponse (components : Components) : String → Prop :=
  Pointer.Found Pointer.responses (Members.keys components.responses)

/-- A request body is reached from a pointer. -/
def ReachesBody (components : Components) : String → Prop :=
  LeadsToBody components.requestBodies Flatten.hopLimit

end Components

/-- The pointer of a reference, if it does not lead where it should. -/
def RefOr.Loses {α : Type} (leads : String → Prop) (pointer : String) : RefOr α → Prop
  | .reference target => target.pointer = pointer ∧ ¬leads pointer
  | .item _ => False

/-- The pointers of an operation that lead nowhere, those in its callbacks left out. -/
inductive Operation.Loses (components : Components) (pointer : String) (operation : Operation) :
    Prop
  | requestBody {body : RefOr RequestBody} (present : operation.requestBody = some body)
      (lost : body.Loses components.ReachesBody pointer)
  | response {status : String} {response : RefOr Response}
      (present : (status, response) ∈ operation.responses)
      (lost : response.Loses components.HasResponse pointer)

/-- The pointers of a path item, and of the path items inside it, that lead nowhere. -/
inductive PathItem.Loses (components : Components) (pointer : String) : PathItem → Prop
  | operation {item : PathItem} {method : Method} {operation : Operation}
      (present : (method, operation) ∈ item.operations)
      (lost : operation.Loses components pointer) : Loses components pointer item
  | inner {item other : PathItem} (present : other ∈ item.inner)
      (lost : Loses components pointer other) : Loses components pointer item

/-- The pointers of a document to component request bodies and responses that lead nowhere. -/
inductive Document.Loses (pointer : String) (document : Document) : Prop
  | path {path : String} {item : PathItem} (present : (path, item) ∈ document.paths)
      (lost : item.Loses document.components pointer)
  | requestBody {name : String} {body : RefOr RequestBody}
      (present : (name, body) ∈ document.components.requestBodies)
      (lost : body.Loses document.components.HasRequestBody pointer)
  | response {name : String} {response : RefOr Response}
      (present : (name, response) ∈ document.components.responses)
      (lost : response.Loses document.components.HasResponse pointer)

/-! ## Following references to request bodies -/

open Flatten

theorem exists_bodyAt?_iff {bodies : Members (RefOr RequestBody)} {lookups : Nat}
    {pointer : String} :
    (∃ name body, bodyAt? bodies lookups pointer = some (name, body)) ↔
      LeadsToBody bodies lookups pointer := by
  induction lookups generalizing pointer with
  | zero =>
      constructor
      · simp [bodyAt?]
      · intro leads
        cases leads
  | succ lookups ih =>
      rw [bodyAt?]
      constructor
      · rintro ⟨name, body, reached⟩
        split at reached
        · next cut =>
            split at reached
            · next there => exact LeadsToBody.item cut there
            · next there => exact LeadsToBody.reference cut there (ih.mp ⟨name, body, reached⟩)
            · contradiction
        · contradiction
      · intro leads
        cases leads with
        | item cut there => simp [cut, there]
        | reference cut there leads => simpa [cut, there] using ih.mpr leads

/-- References among related request bodies lead the same ways. -/
theorem LeadsToBody.of_related {fits : RequestBody → RequestBody → Prop}
    {bodies others : Members (RefOr RequestBody)} {lookups : Nat} {pointer : String}
    (leads : LeadsToBody bodies lookups pointer)
    (related : Members.Related (fun _ => RefOr.Related fits) bodies others) :
    LeadsToBody others lookups pointer := by
  induction leads with
  | item cut there =>
      rcases related.get?_eq_some there with ⟨other, found, same⟩
      cases same with
      | item => exact LeadsToBody.item cut found
  | reference cut there _ ih =>
      rcases related.get?_eq_some there with ⟨other, found, same⟩
      cases same with
      | reference => exact LeadsToBody.reference cut found ih

theorem leadsToBody_iff_of_related {fits : RequestBody → RequestBody → Prop}
    {bodies others : Members (RefOr RequestBody)} {lookups : Nat} {pointer : String}
    (related : Members.Related (fun _ => RefOr.Related fits) bodies others) :
    LeadsToBody bodies lookups pointer ↔ LeadsToBody others lookups pointer := by
  have flipped : Members.Related (fun _ => RefOr.Related fun _ _ => True) others bodies :=
    related.flip fun _ _ _ _ same => same.flip fun _ _ _ _ => trivial
  exact ⟨fun leads => leads.of_related related, fun leads => leads.of_related flipped⟩

end SchemaLift
