import SchemaLift.Proofs.Json.Proper
import SchemaLift.Yaml.Value

/-!
# Values read from YAML

Every number in the value of a YAML text could be read again, since it has been read, and no object
has a key twice (`proper_of_toJson?`), however often the key stands in the text: a later entry takes
the place of an earlier one.
-/

namespace SchemaLift.Yaml

/-! ## Scalars -/

namespace Scalar

/-- A scalar that can be written as a number if it is one. -/
def IsProper : Scalar → Prop
  | .integer value => (Number.integer value).IsProper
  | .binary64 value => (Number.binary64 value).IsProper
  | _ => True

theorem isProper_of_ofInteger? {value : Int} {scalar : Scalar}
    (read : ofInteger? value = some scalar) : scalar.IsProper := by
  unfold ofInteger? at read
  split_ifs at read with narrow wide
  · cases read
    exact narrow
  · cases read
    trivial

theorem isCanonical_of_finite? {chars : List Char} {number : Binary64}
    (read : finite? chars = some number) : number.IsCanonical := by
  simp only [finite?, Option.bind_eq_bind, Option.bind_eq_some_iff] at read
  obtain ⟨digits, -, exponent, -, rounded⟩ := read
  exact Binary64.isCanonical_of_ofDecimal? rounded

theorem isProper_of_float? {text : String} {scalar : Scalar} (read : float? text = some scalar) :
    scalar.IsProper := by
  unfold float? at read
  split_ifs at read with positive negative none
  · cases read
    trivial
  · cases read
    trivial
  · cases read
    trivial
  · obtain ⟨number, finite, rfl⟩ := Option.map_eq_some_iff.mp read
    exact isCanonical_of_finite? finite

theorem isProper_ofPlain (text : String) : (ofPlain text).IsProper := by
  unfold ofPlain
  split
  · trivial
  · split
    · trivial
    · split
      · next scalar read =>
          obtain ⟨value, -, fits⟩ := Option.bind_eq_some_iff.mp read
          exact isProper_of_ofInteger? fits
      · split
        · trivial
        · cases read : float? text with
          | none => trivial
          | some scalar => exact isProper_of_float? read

theorem isProper_of_scalarOf? {tag : Option Tag} {text : String} {style : Style} {scalar : Scalar}
    (read : scalarOf? tag text style = some scalar) : scalar.IsProper := by
  unfold scalarOf? at read
  split at read
  · cases read
    split_ifs with plain
    · exact isProper_ofPlain text
    · trivial
  · split_ifs at read with bool integer float null empty
    · obtain ⟨value, -, rfl⟩ := Option.map_eq_some_iff.mp read
      trivial
    · obtain ⟨value, -, fits⟩ := Option.bind_eq_some_iff.mp read
      exact isProper_of_ofInteger? fits
    · exact isProper_of_float? read
    · cases read
      trivial
    · cases read
      trivial

theorem proper_of_toJson? {scalar : Scalar} {value : Json} (proper : scalar.IsProper)
    (read : scalar.toJson? = some value) : value.Proper := by
  cases scalar <;> simp only [Scalar.toJson?, Option.some.injEq, reduceCtorEq] at read <;>
    subst read
  · exact Json.proper_null
  · exact Json.proper_bool _
  · exact Json.proper_number proper
  · exact Json.proper_number proper
  · exact Json.proper_null
  · exact Json.proper_null
  · exact Json.proper_string _

end Scalar

/-! ## Nodes -/

namespace Node

mutual

theorem proper_of_toJson? (node : Node Empty) {value : Json}
    (read : node.toJson? = some value) : value.Proper := by
  cases node with
  | «alias» name => exact name.elim
  | scalar properties text style =>
      by_cases isLocal : properties.isLocal = true
      · simp [toJson?, isLocal] at read
      · rw [toJson?, if_neg isLocal, Option.bind_eq_bind, Option.bind_eq_some_iff] at read
        rcases read with ⟨scalar, meant, read⟩
        exact Scalar.proper_of_toJson? (Scalar.isProper_of_scalarOf? meant) read
  | sequence properties items =>
      by_cases isLocal : properties.isLocal = true
      · simp [toJson?, isLocal] at read
      · rw [toJson?, if_neg isLocal, Option.bind_eq_bind, Option.bind_eq_some_iff] at read
        rcases read with ⟨values, read, same⟩
        cases same
        exact Json.proper_array (proper_of_itemsToJson? items read)
  | mapping properties entries =>
      by_cases isLocal : properties.isLocal = true
      · simp [toJson?, isLocal] at read
      · rw [toJson?, if_neg isLocal, Option.bind_eq_bind, Option.bind_eq_some_iff] at read
        rcases read with ⟨members, read, same⟩
        cases same
        apply (Json.properMap_iff _).mp
        exact Json.properMap_ofEntries (proper_of_entriesToJson? entries read)

theorem proper_of_itemsToJson? (items : List (Node Empty)) {values : List Json}
    (read : itemsToJson? items = some values) : ∀ value ∈ values, value.Proper := by
  cases items with
  | nil =>
      cases read
      simp
  | cons item rest =>
      simp only [itemsToJson?, Option.bind_eq_bind, Option.bind_eq_some_iff] at read
      rcases read with ⟨first, own, others, later, same⟩
      cases same
      exact List.forall_mem_cons.mpr
        ⟨proper_of_toJson? item own, proper_of_itemsToJson? rest later⟩

theorem proper_of_entriesToJson? (entries : List (Node Empty × Node Empty))
    {members : List (String × Json)} (read : entriesToJson? entries = some members) :
    Json.ProperValues members := by
  cases entries with
  | nil =>
      cases read
      exact Json.properValues_nil
  | cons entry rest =>
      rcases entry with ⟨name, node⟩
      simp only [entriesToJson?, Option.bind_eq_bind, Option.bind_eq_some_iff] at read
      rcases read with ⟨first, _, own, found, others, later, same⟩
      cases same
      exact Json.properValues_cons.mpr
        ⟨proper_of_toJson? node found, proper_of_entriesToJson? rest later⟩

end

end Node

/-- The value of a YAML text can be read again, number by number, and has no object with a key
twice. -/
theorem proper_of_toJson? {text : String} {value : Json} (read : toJson? text = some value) :
    value.Proper := by
  rw [toJson?, Option.bind_eq_bind, Option.bind_eq_some_iff] at read
  rcases read with ⟨document, _, read⟩
  cases document with
  | none =>
      cases read
      exact Json.proper_null
  | some node => exact node.proper_of_toJson? read

/-- The value of a YAML text has no object with a key twice. -/
theorem distinctKeys_of_toJson? {text : String} {value : Json}
    (read : toJson? text = some value) : value.DistinctKeys :=
  (proper_of_toJson? read).distinctKeys

end SchemaLift.Yaml
