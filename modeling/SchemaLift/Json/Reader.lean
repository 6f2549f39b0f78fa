import SchemaLift.Json.Basic
import SchemaLift.Text.Hexadecimal

/-!
# Reading JSON text

A reader takes characters and gives a value with the characters that follow it, or nothing when
the text is not JSON. A repeated object member keeps its first place and its last value.

A number without fraction and exponent that fits 64 bits is an integer, except `-0`. Every other
number is binary64: its leading digits that fit 64 bits are rounded first and then scaled by a
power of ten, which rounds again.
-/

namespace SchemaLift.Json

/-- Drop white space. -/
def skipBlanks (input : List Char) : List Char :=
  input.dropWhile fun char => char = ' ' || char = '\n' || char = '\t' || char = '\r'

/-- Take a fixed word. -/
def expect (word : String) (input : List Char) : Option (List Char) :=
  if word.toList.isPrefixOf input then some (input.drop word.length) else none

/-! ## Strings -/

/-- The value of four hexadecimal digits. -/
def hexUnit? (first second third fourth : Char) : Option Nat := do
  let first ← Text.hexValue? first
  let second ← Text.hexValue? second
  let third ← Text.hexValue? third
  let fourth ← Text.hexValue? fourth
  pure (((first * 16 + second) * 16 + third) * 16 + fourth)

/-- The character of a one-letter escape. -/
def escaped? : Char → Option Char
  | '"' => some '"'
  | '\\' => some '\\'
  | '/' => some '/'
  | 'b' => some '\x08'
  | 'f' => some '\x0c'
  | 'n' => some '\n'
  | 'r' => some '\r'
  | 't' => some '\t'
  | _ => none

/-- Whether a unit is the first half of a surrogate pair. -/
def isHighSurrogate (unit : Nat) : Bool :=
  0xD800 ≤ unit && unit ≤ 0xDBFF

/-- Whether a unit is the second half of a surrogate pair. -/
def isLowSurrogate (unit : Nat) : Bool :=
  0xDC00 ≤ unit && unit ≤ 0xDFFF

/-- The rest of a string after its opening quote; `text` is what was read, last character first. -/
def readString (text : List Char) : List Char → Option (String × List Char)
  | '"' :: rest => some (String.ofList text.reverse, rest)
  | '\\' :: 'u' :: a :: b :: c :: d :: '\\' :: 'u' :: e :: f :: g :: h :: rest =>
    match hexUnit? a b c d, hexUnit? e f g h with
    | some high, some low =>
      if isHighSurrogate high then
        if isLowSurrogate low then
          readString (Char.ofNat (0x10000 + (high - 0xD800) * 0x400 + (low - 0xDC00)) :: text) rest
        else none
      else if isLowSurrogate high then none
      else readString (Char.ofNat high :: text) ('\\' :: 'u' :: e :: f :: g :: h :: rest)
    | _, _ => none
  | '\\' :: 'u' :: a :: b :: c :: d :: rest =>
    match hexUnit? a b c d with
    | some unit =>
      if isHighSurrogate unit || isLowSurrogate unit then none
      else readString (Char.ofNat unit :: text) rest
    | none => none
  | '\\' :: letter :: rest =>
    match escaped? letter with
    | some char => readString (char :: text) rest
    | none => none
  | char :: rest => if char.toNat < 32 then none else readString (char :: text) rest
  | [] => none
termination_by structural input => input

/-! ## Numbers -/

/-- The significant digits of a number, as far as they fit 64 bits. -/
structure Digits where
  significand : Nat
  exponent : Int

/-- The value of a run of digits after `significand`. From the first digit on that would leave 64
bits, digits count as places before the point and are dropped behind it. -/
def takeDigits (afterPoint : Bool) (digits : Digits) (full : Bool) : List Char → Digits
  | [] => digits
  | char :: rest =>
    let next := digits.significand * 10 + (char.toNat - '0'.toNat)
    if full || UInt64.size ≤ next then
      takeDigits afterPoint
        (if afterPoint then digits else ⟨digits.significand, digits.exponent + 1⟩) true rest
    else
      takeDigits afterPoint
        ⟨next, if afterPoint then digits.exponent - 1 else digits.exponent⟩ false rest

/-- Scale by a power of ten as far as one factor reaches; `none` beyond the largest number. -/
def scale (value : Binary64) (exponent : Int) : Nat → Option Binary64
  | 0 => none
  | fuel + 1 =>
    if exponent.natAbs ≤ 308 then do
      let factor ← Binary64.ofDecimal? false 1 exponent.natAbs
      if 0 ≤ exponent then value.mul? factor else value.div? factor
    else if value.significand = 0 then some value
    else if 0 ≤ exponent then none
    else do
      let factor ← Binary64.ofDecimal? false 1 308
      scale (← value.div? factor) (exponent + 308) fuel

/-- The number that digits and an exponent stand for. -/
def ofDigits? (negative : Bool) (digits : Digits) : Option Number := do
  let significand ← Binary64.ofRatio? negative digits.significand 1
  -- Anything below this exponent is zero whatever the digits.
  let exponent := max digits.exponent (-2000)
  pure (.binary64 (← scale significand exponent 10))

/-- A run of digits and what follows. -/
def spanDigits (input : List Char) : List Char × List Char :=
  input.span Char.isDigit

/-- The fraction of a number, if one follows; a point needs a digit. -/
def readFraction (digits : Digits) : List Char → Option (Option Digits × List Char)
  | '.' :: rest =>
    let fraction := spanDigits rest
    if fraction.1.isEmpty then none
    else some (some (takeDigits true digits false fraction.1), fraction.2)
  | input => some (none, input)

/-- The exponent of a number, if one follows. -/
def readExponent (input : List Char) : Option (Option Int × List Char) :=
  match input with
  | char :: rest =>
    if char = 'e' ∨ char = 'E' then
      let signed : Bool × List Char :=
        match rest with
        | '+' :: rest => (false, rest)
        | '-' :: rest => (true, rest)
        | _ => (false, rest)
      let digits := spanDigits signed.2
      if digits.1.isEmpty then none
      else
        let value : Int := Nat.ofDigitChars 10 digits.1 0
        some (some (if signed.1 then -value else value), digits.2)
    else some (none, input)
  | [] => some (none, input)

/-- A number. -/
def readNumber (input : List Char) : Option (Number × List Char) := do
  let (negative, input) : Bool × List Char :=
    match input with
    | '-' :: rest => (true, rest)
    | _ => (false, input)
  let (whole, rest) := spanDigits input
  if whole.isEmpty || (whole.length > 1 && whole.head? == some '0') then none
  let value := Nat.ofDigitChars 10 whole 0
  let digits := takeDigits false ⟨0, 0⟩ false whole
  let (fraction, rest) ← readFraction digits rest
  let (exponent, rest) ← readExponent rest
  match fraction, exponent with
  | none, none =>
    if negative then
      if value = 0 ∨ UInt64.size / 2 < value then pure (← ofDigits? true digits, rest)
      else pure (.integer (-(value : Int)), rest)
    else if UInt64.size ≤ value then pure (← ofDigits? false digits, rest)
    else pure (.integer value, rest)
  | _, _ =>
    let digits := fraction.getD digits
    pure (← ofDigits? negative ⟨digits.significand, digits.exponent + exponent.getD 0⟩, rest)

/-! ## Values -/

mutual

/-- A value; the fuel exceeds the length of the input. -/
def readValue : Nat → List Char → Option (Json × List Char)
  | 0, _ => none
  | fuel + 1, input =>
    match skipBlanks input with
    | '\x7b' :: rest =>
      match skipBlanks rest with
      | '\x7d' :: rest => some (.object [], rest)
      | rest => do
        let (members, rest) ← readMembers fuel rest
        pure (.object (Members.ofEntries members), rest)
    | '[' :: rest =>
      match skipBlanks rest with
      | ']' :: rest => some (.array [], rest)
      | rest => do
        let (elements, rest) ← readElements fuel rest
        pure (.array elements, rest)
    | '"' :: rest => do
      let (text, rest) ← readString [] rest
      pure (.string text, rest)
    | 't' :: rest => return (.bool true, ← expect "rue" rest)
    | 'f' :: rest => return (.bool false, ← expect "alse" rest)
    | 'n' :: rest => return (.null, ← expect "ull" rest)
    | rest => do
      let (value, rest) ← readNumber rest
      pure (.number value, rest)

/-- The elements of an array that has one, with the closing bracket. -/
def readElements : Nat → List Char → Option (List Json × List Char)
  | 0, _ => none
  | fuel + 1, input => do
    let (element, rest) ← readValue fuel input
    match skipBlanks rest with
    | ',' :: rest =>
      let (elements, rest) ← readElements fuel rest
      pure (element :: elements, rest)
    | ']' :: rest => pure ([element], rest)
    | _ => none

/-- The members of an object that has one, with the closing brace. -/
def readMembers : Nat → List Char → Option (List (String × Json) × List Char)
  | 0, _ => none
  | fuel + 1, input =>
    match skipBlanks input with
    | '"' :: rest => do
      let (key, rest) ← readString [] rest
      let rest ← expect ":" (skipBlanks rest)
      let (value, rest) ← readValue fuel rest
      match skipBlanks rest with
      | ',' :: rest =>
        let (members, rest) ← readMembers fuel rest
        pure ((key, value) :: members, rest)
      | '\x7d' :: rest => pure ([(key, value)], rest)
      | _ => none
    | _ => none

end

/-- The value of a whole text, or none if the text is not JSON. -/
def ofText? (text : String) : Option Json := do
  let input := text.toList
  let (value, rest) ← readValue (input.length + 1) input
  if (skipBlanks rest).isEmpty then pure value else none

end SchemaLift.Json
