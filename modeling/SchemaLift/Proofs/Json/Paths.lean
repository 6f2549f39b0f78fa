import SchemaLift.Json.Basic

/-!
# Paths into JSON values

A path leads into a value through the keys of objects and the positions in arrays. It leads to one
value at most, which is scalar if it is a text, a number or a truth value. No path leads any further
from there (`Json.eq_nil_of_at?_isScalar`), and a scalar value is what it is read as.
-/

namespace SchemaLift.Json

/-- One step into a value. -/
inductive Step where
  | key (name : String)
  | index (position : Nat)
deriving DecidableEq, Repr

/-- The value one step inside a value. -/
def step? : Step → Json → Option Json
  | .key name, .object members => Members.get? name members
  | .index position, .array elements => elements[position]?
  | _, _ => none

/-- The value that a path leads to. -/
def at? : List Step → Json → Option Json
  | [], value => some value
  | step :: rest, value => (value.step? step).bind (at? rest)

/-- Whether a value is a text, a number or a truth value. -/
def isScalar : Json → Bool
  | .string _ | .number _ | .bool _ => true
  | .null | .array _ | .object _ => false

@[simp]
theorem step?_key_object (name : String) (members : Members Json) :
    step? (.key name) (.object members) = Members.get? name members :=
  rfl

@[simp]
theorem step?_index_array (position : Nat) (elements : List Json) :
    step? (.index position) (.array elements) = elements[position]? :=
  rfl

@[simp]
theorem at?_nil (value : Json) : at? [] value = some value :=
  rfl

theorem at?_cons (step : Step) (rest : List Step) (value : Json) :
    at? (step :: rest) value = (step? step value).bind (at? rest) :=
  rfl

/-- The first step into a value that need not be there. -/
theorem bind_at?_cons (found : Option Json) (step : Step) (rest : List Step) :
    found.bind (at? (step :: rest)) = (found.bind (step? step)).bind (at? rest) := by
  rw [Option.bind_assoc]
  rfl

theorem step?_eq_none_of_isScalar {value : Json} (scalar : value.isScalar = true) (step : Step) :
    value.step? step = none := by
  cases value <;> cases scalar <;> cases step <;> rfl

/-- No path leads into a scalar value. -/
theorem eq_nil_of_at?_isScalar {value found : Json} (scalar : value.isScalar = true)
    {path : List Step} (leads : value.at? path = some found) : path = [] := by
  cases path with
  | nil => rfl
  | cons step rest =>
      rw [at?_cons, step?_eq_none_of_isScalar scalar] at leads
      cases leads

/-- Only a scalar value leads to one without a step into an object or an array. -/
theorem isScalar_eq_false_of_step?_eq_none {value : Json} (other : value.isScalar = false)
    (empty : ∀ step, value.step? step = none) (path : List Step) (found : Json)
    (leads : value.at? path = some found) : found.isScalar = false := by
  cases path with
  | nil =>
      cases leads
      exact other
  | cons step rest =>
      rw [at?_cons, empty step] at leads
      cases leads

/-! ## What values are read as -/

theorem eq_string_of_string? {value : Json} {text : String} (read : value.string? = some text) :
    value = .string text := by
  cases value <;> cases read
  rfl

theorem eq_bool_of_bool? {value : Json} {truth : Bool} (read : value.bool? = some truth) :
    value = .bool truth := by
  cases value <;> cases read
  rfl

theorem eq_strings_of_strings? {value : Json} {texts : List String}
    (read : value.strings? = some texts) : value = .strings texts := by
  cases value with
  | array elements =>
      rw [strings?] at read
      rw [strings, array.injEq]
      induction elements generalizing texts with
      | nil =>
          cases read
          rfl
      | cons element rest ih =>
          simp only [List.mapM_cons, Option.bind_eq_bind, Option.bind_eq_some_iff] at read
          rcases read with ⟨text, own, others, later, same⟩
          cases same
          rw [List.map_cons, ← ih later, ← eq_string_of_string? own]
  | _ => cases read

theorem eq_integer_of_same {number : Int} {value : Json}
    (equal : (integer number).same value = true) : value = .integer number := by
  cases value with
  | number other =>
      cases other <;> simp_all [integer, same, Number.same]
  | _ => simp [integer, same] at equal

end SchemaLift.Json
