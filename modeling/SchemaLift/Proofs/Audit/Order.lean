import SchemaLift.Audit.Findings
import SchemaLift.Proofs.Schema.Children

/-!
# The order of sightings

An audit goes through a schema from the outside to the inside: the sightings of a schema are the
schema itself and then those of its children, edge by edge (`Schema.sightings_eq`). The operations
of a path, callbacks and path items follow each other in the order in which they are listed.
-/

namespace SchemaLift

/-- The segments that an edge adds to a location. -/
def Edge.segments : Edge → Location
  | .property name => ["properties", name]
  | .undeclared => ["additionalProperties"]
  | .item => ["items"]
  | .member keyword index => [keyword.text, toString index]

namespace Children

/-- The sightings of children below a location. -/
def sightings (location : Location) (children : Children) : List Sighting :=
  children.flatMap fun child => child.2.sightings (location ++ child.1.segments) child.1.role

@[simp]
theorem sightings_nil (location : Location) : sightings location [] = [] :=
  rfl

theorem sightings_cons (location : Location) (edge : Edge) (schema : Schema) (rest : Children) :
    sightings location ((edge, schema) :: rest) =
      schema.sightings (location ++ edge.segments) edge.role ++ sightings location rest :=
  rfl

theorem sightings_append (location : Location) (front back : Children) :
    sightings location (front ++ back) = sightings location front ++ sightings location back :=
  List.flatMap_append

theorem sightings_ofProperties (location : Location) (properties : List (String × Schema)) :
    sightings location (.ofProperties properties) =
      Schema.propertySightings (location ++ ["properties"]) properties := by
  induction properties with
  | nil => rfl
  | cons property rest ih =>
      rcases property with ⟨name, schema⟩
      change sightings location ((.property name, schema) :: ofProperties rest) = _
      rw [sightings_cons, Schema.propertySightings, ih, List.append_assoc]
      rfl

theorem sightings_ofItems (location : Location) (items : Option Schema) :
    sightings location (.ofItems items) =
      Schema.optionalSightings (location ++ ["items"]) items := by
  cases items with
  | none => rfl
  | some schema => exact List.append_nil _

theorem sightings_ofAdditional (location : Location) (additional : AdditionalProperties) :
    sightings location (.ofAdditional additional) =
      Schema.additionalSightings (location ++ ["additionalProperties"]) additional := by
  cases additional with
  | values schema => exact List.append_nil _
  | unspecified => rfl
  | allowed => rfl

theorem sightings_ofMembers (location : Location) {keyword : Keyword} {role : Role}
    (leads : ∀ index, Edge.role (.member keyword index) = role) (index : Nat)
    (schemas : List Schema) :
    sightings location (.ofMembers keyword index schemas) =
      Schema.memberSightings (location ++ [keyword.text]) role index schemas := by
  induction schemas generalizing index with
  | nil => rfl
  | cons schema rest ih =>
      rw [ofMembers, sightings_cons, ih, leads, Schema.memberSightings, List.append_assoc]
      rfl

end Children

/-- The sightings of a schema: first the schema itself, then those of its children. -/
theorem Schema.sightings_eq (schema : Schema) (location : Location) (role : Role) :
    schema.sightings location role =
      ⟨location, role, schema⟩ :: schema.children.sightings location := by
  cases schema with
  | reference => rfl
  | boolean => rfl
  | primitive => rfl
  | array shape =>
      rcases shape with ⟨items, metadata⟩
      rw [sightings, children, Children.sightings_ofItems]
  | map shape =>
      rcases shape with ⟨value, metadata⟩
      rw [sightings, children, Children.sightings_cons, Children.sightings_nil, List.append_nil]
      rfl
  | object shape =>
      rcases shape with ⟨properties, required, additional, discriminator, metadata⟩
      rw [sightings, children, Children.sightings_append, Children.sightings_ofProperties,
        Children.sightings_ofAdditional]
  | composed shape =>
      rcases shape with ⟨allOf, anyOf, oneOf, properties, required, discriminator, metadata⟩
      rw [sightings, children, Children.sightings_append, Children.sightings_append,
        Children.sightings_append, Children.sightings_ofProperties,
        Children.sightings_ofMembers location (fun _ => rfl),
        Children.sightings_ofMembers location (fun _ => rfl),
        Children.sightings_ofMembers location (fun _ => rfl)]
      rfl

/-! ## Path items -/

theorem operationSightings_eq (location : Location) (operations : List (Method × Operation)) :
    operationSightings location operations =
      operations.flatMap fun entry => entry.2.sightings (location ++ [entry.1.key]) := by
  induction operations with
  | nil => rfl
  | cons entry rest ih => rw [operationSightings, ih, List.flatMap_cons]

theorem itemSightings_eq (location : Location) (items : List (String × PathItem)) :
    itemSightings location items =
      items.flatMap fun entry => entry.2.sightings (location ++ [entry.1]) := by
  induction items with
  | nil => rfl
  | cons entry rest ih => rw [itemSightings, ih, List.flatMap_cons]

/-- The sightings in a callback, or none in a reference to one. -/
def Callback.sightings (location : Location) : RefOr Callback → List Sighting
  | .reference _ => []
  | .item callback => itemSightings location callback.expressions

theorem callbackSightings_eq (location : Location) (callbacks : List (String × RefOr Callback)) :
    callbackSightings location callbacks =
      callbacks.flatMap fun entry => Callback.sightings (location ++ [entry.1]) entry.2 := by
  induction callbacks with
  | nil => rfl
  | cons entry rest ih =>
      rcases entry with ⟨name, target | ⟨⟨expressions⟩⟩⟩
      · rw [callbackSightings, ih]
        rfl
      · rw [callbackSightings, ih, List.flatMap_cons]
        rfl

end SchemaLift
