/-!
# Binary64 numbers

The finite numbers of the IEEE 754 format binary64, kept as a sign, a significand and an exponent
of two. All arithmetic is exact on naturals and rounds once, to the nearest number, a tie to the
even significand.
-/

namespace SchemaLift

/-- The number `± significand · 2 ^ exponent`. Zero has the least exponent; its sign is kept. -/
structure Binary64 where
  negative : Bool
  significand : Nat
  exponent : Int
deriving DecidableEq, Repr

namespace Binary64

/-- Significands stay below `2 ^ precision`. -/
def precision : Nat := 53

/-- The exponent of the numbers next to zero. -/
def leastExponent : Int := -1074

/-- The exponent of the largest numbers. -/
def greatestExponent : Int := 971

/-- Zero with a sign. -/
def zero (negative : Bool) : Binary64 :=
  ⟨negative, 0, leastExponent⟩

/-- Numeric equality: both zeros are equal, every other number equals itself only. -/
def same (left right : Binary64) : Bool :=
  (left.significand == 0 && right.significand == 0) || left == right

/-- `2 ^ exponent` as a pair of numerator and denominator. -/
def powerOfTwo (exponent : Int) : Nat × Nat :=
  if 0 ≤ exponent then (Nat.pow 2 exponent.toNat, 1) else (1, Nat.pow 2 (-exponent).toNat)

/-- `10 ^ exponent` as a pair of numerator and denominator. -/
def powerOfTen (exponent : Int) : Nat × Nat :=
  if 0 ≤ exponent then (Nat.pow 10 exponent.toNat, 1) else (1, Nat.pow 10 (-exponent).toNat)

/-- The absolute value as a pair of numerator and denominator. -/
def magnitude (number : Binary64) : Nat × Nat :=
  let scale := powerOfTwo number.exponent
  (number.significand * scale.1, scale.2)

/-- A quotient rounded to the nearest natural, a tie to the even one. -/
def roundHalfEven (numerator denominator : Nat) : Nat :=
  let quotient := numerator / denominator
  let twice := 2 * (numerator % denominator)
  if twice < denominator then quotient
  else if denominator < twice then quotient + 1
  else if quotient % 2 = 0 then quotient else quotient + 1

/-- The greatest `k` with `2 ^ k ≤ numerator / denominator`, both positive. -/
def floorLog2 (numerator denominator : Nat) : Int :=
  let estimate : Int := (numerator.log2 : Int) - (denominator.log2 : Int)
  let scale := powerOfTwo estimate
  if scale.1 * denominator ≤ numerator * scale.2 then estimate else estimate - 1

/-- The number nearest to `± numerator / denominator`, or none beyond the largest. -/
def ofRatio? (negative : Bool) (numerator denominator : Nat) : Option Binary64 :=
  if numerator = 0 then some (zero negative)
  else
    let exponent := max (floorLog2 numerator denominator - (precision - 1 : Nat)) leastExponent
    let scale := powerOfTwo exponent
    let significand := roundHalfEven (numerator * scale.2) (denominator * scale.1)
    let carried := significand = Nat.pow 2 precision
    let significand := if carried then Nat.pow 2 (precision - 1) else significand
    let exponent := if carried then exponent + 1 else exponent
    if greatestExponent < exponent then none
    else if significand = 0 then some (zero negative)
    else some ⟨negative, significand, exponent⟩

/-- How many decimal digits a natural has; zero has one. -/
def digitCount (value : Nat) : Nat :=
  (Nat.toDigits 10 value).length

/-- The number nearest to `± digits · 10 ^ exponent`, or none beyond the largest.

The two early exits are far outside the range of the format, so they only save work. -/
def ofDecimal? (negative : Bool) (digits : Nat) (exponent : Int) : Option Binary64 :=
  let position := (digitCount digits : Int) + exponent
  if digits = 0 then some (zero negative)
  else if 400 < position then none
  else if position < -400 then some (zero negative)
  else
    let scale := powerOfTen exponent
    ofRatio? negative (digits * scale.1) scale.2

/-- The product, rounded. -/
def mul? (left right : Binary64) : Option Binary64 :=
  let x := left.magnitude
  let y := right.magnitude
  ofRatio? (left.negative != right.negative) (x.1 * y.1) (x.2 * y.2)

/-- The quotient by a number that is not zero, rounded. -/
def div? (left right : Binary64) : Option Binary64 :=
  let x := left.magnitude
  let y := right.magnitude
  ofRatio? (left.negative != right.negative) (x.1 * y.2) (x.2 * y.1)

@[simp] theorem same_self (number : Binary64) : same number number = true := by
  simp [same]

end Binary64

end SchemaLift
