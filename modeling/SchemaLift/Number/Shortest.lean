import SchemaLift.Number.Binary64

/-!
# Shortest decimal text

The decimal text of a binary64 number has the fewest digits that still round to the number; of two
such texts the nearer one is taken, and of two equally near ones the even one. How the digits are
laid out (positional or with an exponent) is a `Layout`.
-/

namespace SchemaLift

/-- The decimal `digits · 10 ^ exponent`. -/
structure Decimal where
  digits : Nat
  exponent : Int
deriving DecidableEq, Repr

namespace Decimal

/-- Drop trailing zeros of the digits; the fuel is the number of digits. -/
def trimZeros : Nat → Decimal → Decimal
  | 0, decimal => decimal
  | fuel + 1, decimal =>
    if decimal.digits % 10 = 0 then trimZeros fuel ⟨decimal.digits / 10, decimal.exponent + 1⟩
    else decimal

end Decimal

namespace Binary64

/-! ## The interval of reals that round to a number

Everything is counted in quarters of the number's last place, so that the two ends of the interval
are whole. -/

/-- The number itself, in quarters of its last place. -/
def quarters (number : Binary64) : Nat :=
  4 * number.significand

/-- The upper end: half way to the next number. -/
def upperQuarters (number : Binary64) : Nat :=
  4 * number.significand + 2

/-- The lower end: half way to the previous number, which is nearer below a power of two. -/
def lowerQuarters (number : Binary64) : Nat :=
  if number.significand = Nat.pow 2 (precision - 1) ∧ leastExponent < number.exponent then
    4 * number.significand - 1
  else
    4 * number.significand - 2

/-- Factors that compare `candidate · 10 ^ grid` with quarters of the last place:
the candidate is multiplied by the first, the quarters by the second. -/
def gridFactors (number : Binary64) (grid : Int) : Nat × Nat :=
  let unit := powerOfTwo (number.exponent - 2)
  let ten := powerOfTen grid
  (unit.2 * ten.1, unit.1 * ten.2)

/-- Whether `candidate · 10 ^ grid` rounds to the number. The ends of the interval belong to it
when the significand is even. -/
def roundsFrom (number : Binary64) (grid : Int) (candidate : Nat) : Bool :=
  let factors := gridFactors number grid
  let here := candidate * factors.1
  let low := lowerQuarters number * factors.2
  let high := upperQuarters number * factors.2
  if number.significand % 2 = 0 then low ≤ here && here ≤ high else low < here && here < high

/-- The better of the two neighbours of the number on the grid of multiples of `10 ^ grid`,
if one of them rounds to the number. -/
def onGrid? (number : Binary64) (grid : Int) : Option Nat :=
  let factors := gridFactors number grid
  let target := quarters number * factors.2
  let below := target / factors.1
  let above := below + 1
  match roundsFrom number grid below && below != 0, roundsFrom number grid above with
  | false, false => none
  | true, false => some below
  | false, true => some above
  | true, true =>
    let toBelow := target - below * factors.1
    let toAbove := above * factors.1 - target
    if toBelow < toAbove then some below
    else if toAbove < toBelow then some above
    else if below % 2 = 0 then some below else some above

/-- How many digits the number has before the point; not positive below `1 / 10`. -/
def integerDigits (number : Binary64) : Int :=
  let ratio := magnitude number
  if ratio.2 ≤ ratio.1 then digitCount (ratio.1 / ratio.2)
  else 1 - (digitCount (ratio.2 / ratio.1) : Int)

/-- Try ever finer grids, from `count` digits on. -/
def shortestFrom (number : Binary64) (position : Int) : Nat → Nat → Decimal
  | 0, count => ⟨number.significand, position - count⟩
  | fuel + 1, count =>
    match onGrid? number (position - count) with
    | some digits => ⟨digits, position - count⟩
    | none => shortestFrom number position fuel (count + 1)

/-- The shortest decimal that rounds to the number; seventeen digits always suffice. -/
def shortest (number : Binary64) : Decimal :=
  if number.significand = 0 then ⟨0, 0⟩
  else
    let decimal := shortestFrom number (integerDigits number) 17 1
    decimal.trimZeros 18

/-! ## Layout -/

/-- How digits become text: between the two positions of the point the number is written out,
elsewhere with an exponent, whose plus sign may be shown. -/
structure Layout where
  leastPosition : Int
  greatestPosition : Int
  plusSign : Bool

/-- A run of zeros. -/
def zeros (count : Nat) : List Char :=
  List.replicate count '0'

/-- Digits and the position of the point as text without a sign. -/
def layOut (layout : Layout) (digits : List Char) (exponent : Int) : List Char :=
  let position := (digits.length : Int) + exponent
  if 0 ≤ exponent ∧ position ≤ layout.greatestPosition then
    digits ++ zeros exponent.toNat ++ ['.', '0']
  else if 0 < position ∧ position ≤ layout.greatestPosition then
    digits.take position.toNat ++ '.' :: digits.drop position.toNat
  else if layout.leastPosition ≤ position ∧ position ≤ 0 then
    '0' :: '.' :: (zeros (-position).toNat ++ digits)
  else
    let power := position - 1
    let sign := if power < 0 then ['-'] else if layout.plusSign then ['+'] else []
    let fraction := if digits.length ≤ 1 then [] else '.' :: digits.drop 1
    digits.take 1 ++ fraction ++ 'e' :: sign ++ Nat.toDigits 10 power.natAbs

/-- The text of a number. -/
def render (layout : Layout) (number : Binary64) : String :=
  let sign := if number.negative then ['-'] else []
  if number.significand = 0 then String.ofList (sign ++ ['0', '.', '0'])
  else
    let decimal := shortest number
    String.ofList (sign ++ layOut layout (Nat.toDigits 10 decimal.digits) decimal.exponent)

end Binary64

end SchemaLift
