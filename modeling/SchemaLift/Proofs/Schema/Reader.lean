import SchemaLift.Proofs.Json.Maps
import SchemaLift.Proofs.Schema.Equality
import SchemaLift.Schema.Reader

/-!
# What schemas are read from

The lists that a reader goes through are read element by element (`Schema.ofElements_eq_ok_iff`,
`Schema.ofEntries_eq_ok_iff`), and what it looks for among the members of an object is what stands
under the key (`Schema.listAt_eq` and its like).
-/

namespace SchemaLift

/-! ## Results of reading -/

section Results

variable {ε φ α β : Type}

theorem bind_eq_ok_iff {first : Except ε α} {next : α → Except ε β} {result : β} :
    first >>= next = .ok result ↔ ∃ value, first = .ok value ∧ next value = .ok result := by
  cases first <;> simp [bind, Except.bind]

theorem pure_eq_ok_iff {value result : α} :
    (pure value : Except ε α) = .ok result ↔ value = result := by
  simp [pure, Except.pure]

theorem mapError_eq_ok_iff {first : Except ε α} {change : ε → φ} {result : α} :
    first.mapError change = .ok result ↔ first = .ok result := by
  cases first <;> simp [Except.mapError]

theorem any_toOption_iff {result : Except ε α} {holds : α → Bool} :
    result.toOption.any holds = true ↔ ∃ value, result = .ok value ∧ holds value = true := by
  cases result <;> simp [Except.toOption]

end Results

/-! ## Data -/

theorem Reference.distinct_siblings {members : Members Json} {target : Reference}
    (found : ofMembers? members = some target) (distinct : Json.DistinctMap members) :
    Json.DistinctMap target.siblings := by
  rw [ofMembers?] at found
  split at found
  · cases found
    exact distinct.erase _
  · cases found

theorem Reference.not_mem_siblings {members : Members Json} {target : Reference}
    (found : ofMembers? members = some target) : "$ref" ∉ Members.keys target.siblings := by
  rw [ofMembers?] at found
  split at found
  · cases found
    exact Members.not_mem_keys_erase _ _
  · cases found

theorem Reference.ofMembers?_eq_none_iff {members : Members Json} :
    ofMembers? members = none ↔
      ∀ pointer, Members.get? "$ref" members ≠ some (.string pointer) := by
  rw [ofMembers?]
  constructor
  · rintro none pointer found
    simp [found] at none
  · intro other
    split
    · next pointer found => exact absurd found (other pointer)
    · rfl

theorem PrimitiveSchema.part_of_enumValuesOf {members : Members Json} {values : List Json}
    (read : enumValuesOf members = .ok values) {value : Json} (present : value ∈ values) :
    ∃ stored, Members.get? Keyword.enumeration.text members = some stored ∧
      value ∈ stored.parts := by
  rw [enumValuesOf] at read
  split at read
  · next elements found =>
      cases read
      exact ⟨.array values, found, present⟩
  · cases read
  · cases read
    cases present

namespace Schema

/-! ## Schemas inside a schema -/

theorem ofElements_eq_ok_iff {elements : List Json} {schemas : List Schema} :
    ofElements elements = .ok schemas ↔
      List.Forall₂ (fun value schema => ofJson value = .ok schema) elements schemas := by
  induction elements generalizing schemas with
  | nil => simp [ofElements, eq_comm]
  | cons element rest ih =>
      simp only [ofElements, bind_eq_ok_iff, pure_eq_ok_iff, ih]
      constructor
      · rintro ⟨schema, own, others, later, rfl⟩
        exact List.Forall₂.cons own later
      · intro all
        cases all with
        | cons own later => exact ⟨_, own, _, later, rfl⟩

theorem ofEntries_eq_ok_iff {entries : Members Json} {schemas : List (String × Schema)} :
    ofEntries entries = .ok schemas ↔
      Members.Related (fun _ value schema => ofJson value = .ok schema) entries schemas := by
  induction entries generalizing schemas with
  | nil =>
      constructor
      · intro read
        cases read
        exact Members.Related.nil
      · intro all
        cases all
        rfl
  | cons entry rest ih =>
      rcases entry with ⟨name, value⟩
      simp only [ofEntries, bind_eq_ok_iff, pure_eq_ok_iff, mapError_eq_ok_iff, ih]
      constructor
      · rintro ⟨schema, own, others, later, rfl⟩
        exact Members.Related.cons own later
      · intro all
        cases all with
        | cons own later => exact ⟨_, own, _, later, rfl⟩

theorem listAt_eq (keyword : Keyword) (members : Members Json) :
    listAt keyword members =
      match Members.get? keyword.text members with
      | some (.array elements) => ofElements elements
      | some .null => .ok []
      | some value => .error (.wrongKind (.keyword keyword) value.kind)
      | none => .ok [] := by
  induction members with
  | nil => rfl
  | cons member rest ih =>
      rcases member with ⟨name, value⟩
      by_cases same : name = keyword.text
      · cases value <;> simp only [listAt, Members.get?_cons, if_pos same]
      · rw [Members.get?_cons, if_neg same, ← ih]
        cases value <;> simp only [listAt, if_neg same]

theorem itemsIn_eq (members : Members Json) :
    itemsIn members =
      match Members.get? "items" members with
      | some value => do pure (some (← ofJson value))
      | none => .ok none := by
  induction members with
  | nil => rfl
  | cons member rest ih =>
      rcases member with ⟨name, value⟩
      by_cases same : name = "items"
      · cases value <;> simp only [itemsIn, Members.get?_cons, if_pos same]
      · rw [Members.get?_cons, if_neg same, ← ih]
        cases value <;> simp only [itemsIn, if_neg same]

theorem propertiesIn_eq (members : Members Json) :
    propertiesIn members =
      match Members.get? Keyword.properties.text members with
      | some (.object entries) => ofEntries entries
      | some .null => .ok []
      | some value => .error (.wrongKind (.keyword .properties) value.kind)
      | none => .ok [] := by
  induction members with
  | nil => rfl
  | cons member rest ih =>
      rcases member with ⟨name, value⟩
      by_cases same : name = Keyword.properties.text
      · cases value <;> simp only [propertiesIn, Members.get?_cons, if_pos same]
      · rw [Members.get?_cons, if_neg same, ← ih]
        cases value <;> simp only [propertiesIn, if_neg same]

theorem additionalIn_eq (members : Members Json) :
    additionalIn members =
      match Members.get? Keyword.additionalProperties.text members with
      | some (.bool allowed) => .ok (.allowed allowed)
      | some (.object inner) => do pure (.values (← ofJson (.object inner)))
      | some .null => .ok .unspecified
      | some value => .error (.wrongKind (.keyword .additionalProperties) value.kind)
      | none => .ok .unspecified := by
  induction members with
  | nil => rfl
  | cons member rest ih =>
      rcases member with ⟨name, value⟩
      by_cases same : name = Keyword.additionalProperties.text
      · rw [Members.get?_cons, if_pos same]
        cases value <;> rw [additionalIn, if_pos same] <;> rfl
      · rw [Members.get?_cons, if_neg same, ← ih, additionalIn, if_neg same]

end Schema

end SchemaLift
