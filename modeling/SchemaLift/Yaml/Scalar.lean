import SchemaLift.Number.Binary64

/-!
# What plain scalars mean

A plain scalar is null, a truth value, a number or a text, by its spelling alone. An integer may
have a sign and be written in base 16, 8 or 2; a decimal one with a leading zero is a text. A number
with a point or an exponent is rounded to binary64, and is a text when it is too large for it.
-/

namespace SchemaLift.Yaml

/-- The meaning of a plain scalar. -/
inductive Scalar where
  | null
  | bool (value : Bool)
  | integer (value : Int)
  /-- An integer that needs more than 64 bits but not more than 128. -/
  | wideInteger (value : Int)
  | binary64 (value : Binary64)
  | infinity (negative : Bool)
  | notANumber
  | text (value : String)
deriving DecidableEq, Repr

namespace Scalar

/-! ## Words -/

/-- The spellings of null. -/
def isNull (text : String) : Bool :=
  text = "null" || text = "Null" || text = "NULL" || text = "~"

/-- The spellings of truth values. -/
def bool? (text : String) : Option Bool :=
  if text = "true" || text = "True" || text = "TRUE" then some true
  else if text = "false" || text = "False" || text = "FALSE" then some false
  else none

/-! ## Integers -/

/-- The value of a digit in some base. -/
def digitValue? (base : Nat) (char : Char) : Option Nat :=
  let value :=
    if '0' ≤ char ∧ char ≤ '9' then char.toNat - '0'.toNat
    else if 'a' ≤ char ∧ char ≤ 'z' then char.toNat - 'a'.toNat + 10
    else if 'A' ≤ char ∧ char ≤ 'Z' then char.toNat - 'A'.toNat + 10
    else base
  if value < base then some value else none

/-- The value of at least one digit. -/
def natural? (base : Nat) (digits : List Char) : Option Nat :=
  if digits.isEmpty then none
  else
    digits.foldlM (fun value char => do pure (value * base + (← digitValue? base char))) 0

/-- Drop a sign. -/
def dropSign : List Char → List Char
  | '+' :: rest => rest
  | '-' :: rest => rest
  | chars => chars

/-- Digits with a superfluous leading zero: a text, not a number. -/
def hasLeadingZero (chars : List Char) : Bool :=
  let digits := dropSign chars
  1 < digits.length && digits.head? == some '0' && digits.all Char.isDigit

/-- The integer that is written, whatever its size. -/
def integer? (chars : List Char) : Option Int :=
  let signed : Bool × List Char :=
    match chars with
    | '-' :: rest => (true, rest)
    | '+' :: rest => (false, rest)
    | _ => (false, chars)
  let magnitude :=
    match signed.2 with
    | '0' :: 'x' :: digits => natural? 16 digits
    | '0' :: 'o' :: digits => natural? 8 digits
    | '0' :: 'b' :: digits => natural? 2 digits
    | digits => if hasLeadingZero chars then none else natural? 10 digits
  magnitude.map fun value => if signed.1 then -(value : Int) else value

/-- An integer by the number of bits that it needs; none beyond 128. -/
def ofInteger? (value : Int) : Option Scalar :=
  if -Nat.pow 2 63 ≤ value ∧ value < Nat.pow 2 64 then some (.integer value)
  else if -Nat.pow 2 127 ≤ value ∧ value < Nat.pow 2 128 then some (.wideInteger value)
  else none

/-! ## Numbers with a point or an exponent -/

/-- The exponent of a number: nothing, or a mark, a sign and digits. -/
def exponent? : List Char → Option Int
  | [] => some 0
  | mark :: rest =>
    if mark = 'e' ∨ mark = 'E' then
      match rest with
      | '-' :: digits => (natural? 10 digits).map fun value => -(value : Int)
      | '+' :: digits => (natural? 10 digits).map Int.ofNat
      | digits => (natural? 10 digits).map Int.ofNat
    else none

/-- The binary64 number that is written, if it is in range. -/
def finite? (chars : List Char) : Option Binary64 := do
  let (negative, chars) : Bool × List Char :=
    match chars with
    | '-' :: rest => (true, rest)
    | '+' :: rest => (false, rest)
    | _ => (false, chars)
  let (whole, rest) := chars.span Char.isDigit
  let (fraction, rest) : List Char × List Char :=
    match rest with
    | '.' :: rest => rest.span Char.isDigit
    | _ => ([], rest)
  let digits ← natural? 10 (whole ++ fraction)
  let exponent ← exponent? rest
  Binary64.ofDecimal? negative digits (exponent - fraction.length)

/-- Infinity, no number, or a finite number. -/
def float? (text : String) : Option Scalar :=
  if [".inf", ".Inf", ".INF", "+.inf", "+.Inf", "+.INF"].contains text then
    some (.infinity false)
  else if ["-.inf", "-.Inf", "-.INF"].contains text then some (.infinity true)
  else if [".nan", ".NaN", ".NAN"].contains text then some .notANumber
  else (finite? text.toList).map .binary64

/-! ## The rule -/

/-- What a plain scalar means. -/
def ofPlain (text : String) : Scalar :=
  if text = "" || isNull text then .null
  else
    match bool? text with
    | some value => .bool value
    | none =>
      match (integer? text.toList).bind ofInteger? with
      | some scalar => scalar
      | none =>
        if hasLeadingZero text.toList then .text text else (float? text).getD (.text text)

/-- Whether a text, written plain, would be read as itself. -/
def isPlainText (text : String) : Bool :=
  ofPlain text = .text text

end Scalar

end SchemaLift.Yaml
