import SchemaLift.Document.Basic
import SchemaLift.Proofs.Json.Paths
import SchemaLift.Proofs.Members.Related
import SchemaLift.Schema.Reader

/-!
# What reading keeps

What a document is read from is read as parts of it: each value as the part that its place asks for
(`Part`). Almost all that stands at such a place is kept, as what it means or among the members that
are not interpreted, or it is refused. Two kinds of values are neither kept nor refused
(`Part.accepts`): what is no text where one is wanted, as the identifier of an operation and the
target of a value of a discriminator, and what is no object where a map is wanted, as the responses
of an operation and the schemas among the components. So it follows from a value and a path into it
whether reading keeps what stands there (`Part.keeps`).

What is written mirrors what was read (`Part.Mirrors`) if the scalar values that reading keeps, and
no others, are found where they were.
-/

namespace SchemaLift

open Json (Step)

/-- What a value is read as. -/
inductive Part where
  /-- Anything: the value is not interpreted. -/
  | plain
  /-- A text. What is none does not count. -/
  | text
  /-- A list of parts. -/
  | list (each : Part)
  /-- A map of parts. What is no object does not count. -/
  | map (each : Part)
  | document
  | components
  | pathItem
  | operation
  | parameter
  /-- A request body or a response. -/
  | body
  | callback
  | mediaType
  | schema
  | discriminator
deriving DecidableEq, Repr

namespace Schema

/-- The declared type among the members of an object. -/
def declaredIn (members : Members Json) : Option DeclaredType :=
  (DeclaredType.ofMembers members).toOption.join

/-- The members of an object that are read as parts of a schema, unless it is a reference. -/
def partsIn (members : Members Json) : Members Part :=
  if combines members then
    [("allOf", .list .schema), ("anyOf", .list .schema), ("oneOf", .list .schema),
      ("properties", .map .schema), ("discriminator", .discriminator)]
  else if declares (declaredIn members) "array" || Members.has "items" members then
    [("items", .schema)]
  else if declares (declaredIn members) "object" || Members.has "properties" members ||
      Members.has "additionalProperties" members then
    [("properties", .map .schema), ("additionalProperties", .schema),
      ("discriminator", .discriminator)]
  else []

end Schema

namespace Part

/-- Whether a value counts as the part that it is read as, if it is not refused. -/
def accepts : Part → Json → Bool
  | .text, .string _ | .map _, .object _ => true
  | .text, _ | .map _, _ => false
  | _, _ => true

/-- Whether a reference can stand for the part. -/
def refers : Part → Bool
  | .parameter | .body | .callback | .schema => true
  | _ => false

/-- The members of a part that are read as parts themselves. -/
def known : Part → Members Json → Members Part
  | .document, _ => [("paths", .map .pathItem), ("components", .components)]
  | .components, _ =>
    [("schemas", .map .schema), ("requestBodies", .map .body), ("responses", .map .body)]
  | .pathItem, _ =>
    ("parameters", .list .parameter) :: Method.all.map fun method => (method.key, .operation)
  | .operation, _ =>
    [("operationId", .text), ("parameters", .list .parameter), ("requestBody", .body),
      ("responses", .map .body), ("callbacks", .map .callback)]
  | .parameter, _ => [("schema", .schema), ("content", .map .mediaType)]
  | .body, _ => [("content", .map .mediaType)]
  | .mediaType, _ => [("schema", .schema)]
  | .schema, members => Schema.partsIn members
  | .discriminator, _ => [("mapping", .map .text)]
  | .plain, _ | .text, _ | .list _, _ | .map _, _ | .callback, _ => []

/-- What the member under a key is read as. -/
def under (part : Part) (members : Members Json) (name : String) : Part :=
  match part with
  | .map each => each
  | .callback => .pathItem
  | part => (Members.get? name (part.known members)).getD .plain

/-- What stands one step inside a value is read as. Nothing in a reference is interpreted. -/
def inside (part : Part) : Json → Step → Part
  | .object members, .key name =>
    if part.refers && (Reference.ofMembers? members).isSome then .plain else part.under members name
  | .array _, .index _ =>
    match part with
    | .list each => each
    | _ => .plain
  | _, _ => .plain

/-- Whether reading a value as a part keeps what a path leads to. -/
def keeps : List Step → Part → Json → Bool
  | [], part, value => part.accepts value
  | step :: rest, part, value =>
    part.accepts value &&
      (value.step? step).all fun found => keeps rest (part.inside value step) found

/-- The scalar values that reading keeps of a value, and no others, are found where they were. -/
def Mirrors (part : Part) (value : Json) (found : Option Json) : Prop :=
  ∀ path scalar, value.at? path = some scalar → scalar.isScalar = true →
    (found.bind (Json.at? path) = some scalar ↔ part.keeps path value = true)

/-! ## Values that are kept or dropped as they are -/

theorem keeps_plain (path : List Step) (value : Json) : Part.plain.keeps path value = true := by
  induction path generalizing value with
  | nil => rfl
  | cons step rest ih =>
      have same : Part.plain.inside value step = .plain := by
        cases value <;> cases step <;> rfl
      rw [keeps, same]
      simp [accepts, ih]

/-- What is not interpreted is kept. -/
theorem mirrors_plain (value : Json) : Part.plain.Mirrors value (some value) := by
  intro path scalar leads _
  simpa [keeps_plain] using leads

variable {part : Part} {value : Json} {found : Option Json}

/-- A value in which nothing stands is mirrored by anything. -/
theorem mirrors_of_empty (inner : value.isScalar = false)
    (empty : ∀ step, value.step? step = none) : part.Mirrors value found := by
  intro path scalar leads isScalar
  rw [Json.isScalar_eq_false_of_step?_eq_none inner empty path scalar leads] at isScalar
  cases isScalar

theorem mirrors_null : part.Mirrors .null found :=
  mirrors_of_empty rfl fun step => by cases step <;> rfl

theorem mirrors_array_nil : part.Mirrors (.array []) found :=
  mirrors_of_empty rfl fun step => by cases step <;> rfl

/-- A value that does not count is mirrored by one without scalar values. -/
theorem mirrors_of_not_accepts (other : part.accepts value = false)
    (quiet : ∀ path scalar, found.bind (Json.at? path) = some scalar → scalar.isScalar = false) :
    part.Mirrors value found := by
  intro path scalar _ isScalar
  have dropped : part.keeps path value = false := by
    cases path <;> simp [keeps, other]
  rw [dropped]
  refine iff_of_false (fun there => ?_) Bool.false_ne_true
  rw [quiet path scalar there] at isScalar
  cases isScalar

theorem mirrors_of_isScalar (accepted : part.accepts value = true)
    (scalar : value.isScalar = true) : part.Mirrors value (some value) := by
  intro path found leads _
  cases Json.eq_nil_of_at?_isScalar scalar leads
  simpa [keeps, accepted] using leads

theorem mirrors_text (value : Json) :
    Part.text.Mirrors value (value.string?.map Json.string) := by
  cases value with
  | string => exact mirrors_of_isScalar rfl rfl
  | _ => exact mirrors_of_not_accepts rfl (by simp [Json.string?])

/-! ## Values with values inside -/

/-- What is written mirrors a value if it does so one step inside, whatever the step. -/
theorem mirrors_of_inside (accepted : part.accepts value = true) (inner : value.isScalar = false)
    (each : ∀ step child, value.step? step = some child →
      (part.inside value step).Mirrors child (found.bind (Json.step? step))) :
    part.Mirrors value found := by
  intro path scalar leads isScalar
  cases path with
  | nil =>
      cases leads
      rw [inner] at isScalar
      cases isScalar
  | cons step rest =>
      rcases Option.bind_eq_some_iff.mp leads with ⟨child, there, deeper⟩
      rw [Json.bind_at?_cons, each step child there rest scalar deeper isScalar, keeps, accepted,
        there]
      simp

theorem mirrors_object {members : Members Json} (accepted : part.accepts (.object members) = true)
    (each : ∀ name child, Members.get? name members = some child →
      (part.inside (.object members) (.key name)).Mirrors child
        (found.bind (Json.step? (.key name)))) :
    part.Mirrors (.object members) found := by
  apply mirrors_of_inside accepted rfl
  intro step child there
  cases step with
  | key name => exact each name child there
  | index => cases there

section Written

variable {α : Type} {write : α → Json}

/-- A map is mirrored if its values are, one by one. -/
theorem mirrors_of_related {entries : Members Json} {values : Members α}
    (all : Members.Related (fun _ value entry => part.Mirrors value (some (write entry))) entries
      values) :
    (Part.map part).Mirrors (.object entries) (some (.object (Members.mapValues write values))) := by
  apply mirrors_object rfl
  intro name child there
  rcases all.get?_eq_some there with ⟨entry, beside, mirrors⟩
  rw [Option.bind_some, Json.step?_key_object, Members.get?_mapValues, beside]
  exact mirrors

/-- A list is mirrored if its elements are, one by one. -/
theorem mirrors_of_forall₂ {elements : List Json} {values : List α}
    (all : List.Forall₂ (fun value entry => part.Mirrors value (some (write entry))) elements
      values) :
    (Part.list part).Mirrors (.array elements) (some (.array (values.map write))) := by
  apply mirrors_of_inside rfl rfl
  intro step child there
  cases step with
  | key => cases there
  | index position =>
      rw [Json.step?_index_array, List.getElem?_eq_some_iff] at there
      rcases there with ⟨inside, rfl⟩
      have beside : position < values.length := all.length_eq ▸ inside
      rw [Option.bind_some, Json.step?_index_array, List.getElem?_map,
        List.getElem?_eq_getElem beside]
      exact all.get inside beside

end Written

/-! ## What is left out because it is empty -/

theorem Mirrors.of_empty {other : Json} (mirrors : part.Mirrors value (some other))
    (inner : other.isScalar = false) (empty : ∀ step, other.step? step = none) :
    part.Mirrors value none := by
  intro path scalar leads isScalar
  rw [← mirrors path scalar leads isScalar]
  refine iff_of_false (by simp) fun there => ?_
  rw [Json.isScalar_eq_false_of_step?_eq_none inner empty path scalar there] at isScalar
  cases isScalar

/-- A map mirrors as well if it is left out where it is empty. -/
theorem Mirrors.unless_object {entries : Members Json}
    (mirrors : part.Mirrors value (some (.object entries))) :
    part.Mirrors value (if entries = [] then none else some (.object entries)) := by
  split
  · next empty =>
      subst empty
      exact mirrors.of_empty rfl fun step => by cases step <;> rfl
  · exact mirrors

/-- A list mirrors as well if it is left out where it is empty. -/
theorem Mirrors.unless_array {elements : List Json}
    (mirrors : part.Mirrors value (some (.array elements))) :
    part.Mirrors value (if elements = [] then none else some (.array elements)) := by
  split
  · next empty =>
      subst empty
      exact mirrors.of_empty rfl fun step => by cases step <;> rfl
  · exact mirrors

end Part

end SchemaLift
