import SchemaLift.Audit.Location
import SchemaLift.Proofs.Json.Paths

/-!
# JSON pointers

A JSON pointer is empty, or a list of tokens with a slash before each one. In a token `~1` stands
for a slash and `~0` for a tilde, and they are replaced in this order. A token names a member of an
object or, as a number without leading zeros, an element of an array.

Reading the pointer to a location gives the location back, whatever is in its segments
(`tokens?_pointer`), so that different locations have different pointers (`pointer_injective`).
-/

namespace SchemaLift

namespace JsonPointer

/-- Put a character wherever two given ones follow one another. -/
def substitute (first second replacement : Char) : List Char → List Char
  | [] => []
  | [char] => [char]
  | char :: next :: rest =>
    if char = first ∧ next = second then
      replacement :: substitute first second replacement rest
    else char :: substitute first second replacement (next :: rest)

/-- The text that a token means. -/
def unescape (token : List Char) : List Char :=
  substitute '~' '0' '~' (substitute '~' '1' '/' token)

/-- The tokens of a pointer. -/
def tokens? (pointer : String) : Option (List String) :=
  match pointer.toList with
  | [] => some []
  | '/' :: rest => some ((rest.splitOn '/').map fun token => String.ofList (unescape token))
  | _ => none

/-- The position in an array that a token means: a number without leading zeros. -/
def position? (token : String) : Option Nat :=
  let position := Nat.ofDigitChars 10 token.toList 0
  if toString position = token then some position else none

end JsonPointer

namespace Json

/-- The value that a token leads to. -/
def member? (token : String) : Json → Option Json
  | .object members => Members.get? token members
  | .array elements => (JsonPointer.position? token).bind fun position => elements[position]?
  | _ => none

/-- The value that tokens lead to, one after the other. -/
def follow? : List String → Json → Option Json
  | [], value => some value
  | token :: rest, value => (value.member? token).bind (follow? rest)

/-- The value that a pointer leads to. -/
def pointed? (pointer : String) (value : Json) : Option Json :=
  (JsonPointer.tokens? pointer).bind fun tokens => value.follow? tokens

end Json

/-! ## Tokens -/

namespace JsonPointer

theorem substitute_cons_of_ne {first char : Char} (other : char ≠ first)
    (second replacement : Char) (rest : List Char) :
    substitute first second replacement (char :: rest) =
      char :: substitute first second replacement rest := by
  cases rest with
  | nil => rfl
  | cons next rest => rw [substitute, if_neg fun same => other same.1]

theorem substitute_pair (first second replacement : Char) (rest : List Char) :
    substitute first second replacement (first :: second :: rest) =
      replacement :: substitute first second replacement rest := by
  rw [substitute, if_pos ⟨rfl, rfl⟩]

/-- A character of a segment as it is written in a pointer. -/
def escapeChar (char : Char) : List Char :=
  if char = '~' then ['~', '0'] else if char = '/' then ['~', '1'] else [char]

theorem toList_escape (segment : String) :
    (Location.escape segment).toList = segment.toList.flatMap escapeChar := by
  rw [Location.escape, String.toList_ofList]
  rfl

/-- Between the two replacements only tildes are escaped. -/
theorem substitute_slash (chars : List Char) :
    substitute '~' '1' '/' (chars.flatMap escapeChar) =
      chars.flatMap fun char => if char = '~' then ['~', '0'] else [char] := by
  induction chars with
  | nil => rfl
  | cons char rest ih =>
      rw [List.flatMap_cons, List.flatMap_cons, escapeChar]
      by_cases tilde : char = '~'
      · rw [if_pos tilde, if_pos tilde, List.cons_append, List.cons_append, List.nil_append,
          substitute, if_neg (by decide), substitute_cons_of_ne (by decide), ih]
        rfl
      · rw [if_neg tilde, if_neg tilde]
        by_cases slash : char = '/'
        · rw [if_pos slash, slash, List.cons_append, List.cons_append, List.nil_append,
            substitute_pair, ih]
          rfl
        · rw [if_neg slash, List.cons_append, List.nil_append, substitute_cons_of_ne tilde, ih]
          rfl

theorem substitute_tilde (chars : List Char) :
    substitute '~' '0' '~' (chars.flatMap fun char => if char = '~' then ['~', '0'] else [char]) =
      chars := by
  induction chars with
  | nil => rfl
  | cons char rest ih =>
      rw [List.flatMap_cons]
      by_cases tilde : char = '~'
      · rw [if_pos tilde, tilde, List.cons_append, List.cons_append, List.nil_append,
          substitute_pair, ih]
      · rw [if_neg tilde, List.cons_append, List.nil_append, substitute_cons_of_ne tilde, ih]

/-- A segment that is escaped is read as itself. -/
theorem unescape_escape (segment : String) :
    unescape (Location.escape segment).toList = segment.toList := by
  rw [unescape, toList_escape, substitute_slash, substitute_tilde]

theorem slash_not_mem_escape (segment : String) : '/' ∉ (Location.escape segment).toList := by
  rw [toList_escape, List.mem_flatMap]
  rintro ⟨char, _, inside⟩
  unfold escapeChar at inside
  split at inside
  · simp at inside
  · split at inside
    · simp at inside
    · next other => exact other (List.mem_singleton.mp inside).symm

theorem toList_pointer (location : Location) :
    (Location.pointer location).toList =
      location.flatMap fun segment => '/' :: (Location.escape segment).toList := by
  rw [Location.pointer, String.toList_join, List.flatMap_map]
  simp

theorem splitOn_escaped (segment : String) (location : Location) :
    ((Location.escape segment).toList ++
        location.flatMap fun segment => '/' :: (Location.escape segment).toList).splitOn '/' =
      (segment :: location).map fun segment => (Location.escape segment).toList := by
  induction location generalizing segment with
  | nil =>
      rw [List.flatMap_nil, List.append_nil, List.splitOn_eq_singleton (slash_not_mem_escape segment)]
      rfl
  | cons next rest ih =>
      rw [List.flatMap_cons, List.cons_append,
        List.splitOn_append_cons_self_of_not_mem (slash_not_mem_escape segment), ih,
        List.map_cons]
      rfl

/-- The tokens of the pointer to a location are its segments. -/
theorem tokens?_pointer (location : Location) : tokens? location.pointer = some location := by
  rw [tokens?, toList_pointer]
  cases location with
  | nil => rfl
  | cons segment rest =>
      have texts : ((fun token => String.ofList (unescape token)) ∘ fun segment =>
          (Location.escape segment).toList) = id := by
        funext segment
        rw [Function.comp_apply, unescape_escape, String.ofList_toList, id]
      simp only [List.flatMap_cons, List.cons_append, splitOn_escaped, List.map_map, texts,
        List.map_id]

/-- Different locations have different pointers. -/
theorem pointer_injective : Function.Injective Location.pointer := by
  intro left right same
  have tokens := tokens?_pointer left
  rw [same, tokens?_pointer right] at tokens
  exact (Option.some.inj tokens).symm

/-- A position that is written is read as itself. -/
theorem position?_toString (position : Nat) : position? (toString position) = some position := by
  have digits : Nat.ofDigitChars 10 (toString position).toList 0 = position := by
    rw [Nat.toString_eq_ofList_toDigits, String.toList_ofList, Nat.ofDigitChars_ten_toDigits]
  simp only [position?, digits, if_true]

end JsonPointer

end SchemaLift
