import SchemaLift.Members
import SchemaLift.Number.Binary64

/-!
# JSON values

A value with ordered object members. An integer and a binary64 number are different values even
when they stand for the same quantity. Equality (`Json.same`) ignores the order of object members
at every depth and keeps the order of array elements.
-/

namespace SchemaLift

/-- A number: an integer, or a number written with a fraction or an exponent. -/
inductive Number where
  | integer (value : Int)
  | binary64 (value : Binary64)
deriving DecidableEq, Repr

namespace Number

/-- Integers equal integers, and binary64 numbers equal numerically. -/
def same : Number → Number → Bool
  | .integer left, .integer right => left == right
  | .binary64 left, .binary64 right => left.same right
  | _, _ => false

@[simp] theorem same_self (number : Number) : number.same number = true := by
  cases number <;> simp [same]

end Number

/-- A JSON value. -/
inductive Json where
  | null
  | bool (value : Bool)
  | number (value : Number)
  | string (value : String)
  | array (elements : List Json)
  | object (members : List (String × Json))
deriving Repr, Inhabited

namespace Json

/-- What a value is, in the words of error messages. -/
inductive Kind where
  | null
  | boolean
  | number
  | string
  | array
  | object
deriving DecidableEq, Repr

/-- The word for a kind. -/
def Kind.word : Kind → String
  | .null => "null"
  | .boolean => "boolean"
  | .number => "number"
  | .string => "string"
  | .array => "array"
  | .object => "object"

/-- The kind of a value. -/
def kind : Json → Kind
  | .null => .null
  | .bool _ => .boolean
  | .number _ => .number
  | .string _ => .string
  | .array _ => .array
  | .object _ => .object

/-- An integer value. -/
def integer (value : Int) : Json :=
  .number (.integer value)

/-- An array of strings. -/
def strings (values : List String) : Json :=
  .array (values.map .string)

/-- The text of a string value. -/
def string? : Json → Option String
  | .string value => some value
  | _ => none

/-- The truth value of a boolean. -/
def bool? : Json → Option Bool
  | .bool value => some value
  | _ => none

/-- The texts of an array that holds strings only. -/
def strings? : Json → Option (List String)
  | .array elements => elements.mapM string?
  | _ => none

/-! ## Equality -/

mutual

/-- Equality that ignores the order of members. -/
def same : Json → Json → Bool
  | .null, .null => true
  | .bool left, .bool right => left == right
  | .number left, .number right => left.same right
  | .string left, .string right => left == right
  | .array left, .array right => sameElements left right
  | .object left, .object right => left.length == right.length && sameMembers left right
  | _, _ => false

/-- Equality of arrays, element by element. -/
def sameElements : List Json → List Json → Bool
  | [], [] => true
  | left :: lefts, right :: rights => left.same right && sameElements lefts rights
  | _, _ => false

/-- Every member has an equal one of the same key on the right. -/
def sameMembers : List (String × Json) → List (String × Json) → Bool
  | [], _ => true
  | (key, left) :: rest, others =>
    (match Members.get? key others with
      | some right => left.same right
      | none => false) && sameMembers rest others

end

instance : BEq Json := ⟨same⟩

/-- Equality of members that are maps of values. -/
def sameMap (left right : Members Json) : Bool :=
  left.length == right.length && sameMembers left right

end Json

end SchemaLift
