import Mathlib.Algebra.Order.Field.Power
import Mathlib.Data.Int.Log
import Mathlib.Data.Rat.Floor
import Mathlib.Tactic.FieldSimp
import Mathlib.Tactic.Linarith
import Mathlib.Tactic.NormNum
import SchemaLift.Number.Shortest

/-!
# Rounding to binary64

A number is canonical if its significand fits and is as large as the exponents allow. Rounding gives
canonical numbers only (`Binary64.isCanonical_of_ofRatio?`). It gives a canonical number back for
every rational that lies no farther from the number than half of the way to its neighbours
(`Binary64.ofRatio?_eq_some`), where the ends of this interval count if the significand is even.
-/

namespace SchemaLift.Binary64

/-- The significand fits, and it is as large as the exponents allow. -/
structure IsCanonical (number : Binary64) : Prop where
  significand : number.significand < 2 ^ 53
  least : leastExponent ≤ number.exponent
  greatest : number.exponent ≤ greatestExponent
  normal : 2 ^ 52 ≤ number.significand ∨ number.exponent = leastExponent

theorem isCanonical_zero (negative : Bool) : (zero negative).IsCanonical := by
  constructor <;> simp [zero, leastExponent, greatestExponent]

/-! ## Powers -/

/-- A power with an exponent that may be negative, as a pair of numerator and denominator. -/
def powerOf (base : Nat) (exponent : Int) : Nat × Nat :=
  if 0 ≤ exponent then (base ^ exponent.toNat, 1) else (1, base ^ (-exponent).toNat)

theorem powerOf_pos {base : Nat} (positive : 0 < base) (exponent : Int) :
    0 < (powerOf base exponent).1 ∧ 0 < (powerOf base exponent).2 := by
  rw [powerOf]
  split <;> simp [Nat.pow_pos positive]

theorem powerOf_eq {base : Nat} (positive : 0 < base) (exponent : Int) :
    ((powerOf base exponent).1 : ℚ) = base ^ exponent * (powerOf base exponent).2 := by
  rw [powerOf]
  split
  · next whole =>
      obtain ⟨power, rfl⟩ := Int.eq_ofNat_of_zero_le whole
      simp
  · next whole =>
      obtain ⟨power, same⟩ := Int.eq_ofNat_of_zero_le (show 0 ≤ -exponent by omega)
      obtain rfl : exponent = -power := by omega
      simp [positive.ne']

theorem powerOfTwo_pos (exponent : Int) :
    0 < (powerOfTwo exponent).1 ∧ 0 < (powerOfTwo exponent).2 :=
  powerOf_pos Nat.two_pos exponent

theorem powerOfTwo_eq (exponent : Int) :
    ((powerOfTwo exponent).1 : ℚ) = 2 ^ exponent * (powerOfTwo exponent).2 :=
  powerOf_eq Nat.two_pos exponent

theorem powerOfTen_pos (exponent : Int) :
    0 < (powerOfTen exponent).1 ∧ 0 < (powerOfTen exponent).2 :=
  powerOf_pos (by decide) exponent

theorem powerOfTen_eq (exponent : Int) :
    ((powerOfTen exponent).1 : ℚ) = 10 ^ exponent * (powerOfTen exponent).2 :=
  powerOf_eq (by decide) exponent

/-! ## Logarithms -/

theorem log_eq_of_mem {base : Nat} (large : 1 < base) {value : ℚ} (positive : 0 < value)
    {power : Int} (low : (base : ℚ) ^ power ≤ value) (high : value < (base : ℚ) ^ (power + 1)) :
    Int.log base value = power := by
  have above := (Int.zpow_le_iff_le_log large positive).mp low
  have below := (Int.lt_zpow_iff_log_lt large positive).mp high
  omega

/-- A quotient lies near the quotient of the powers that its parts lie between. -/
theorem quotient_mem {numerator denominator above below : Nat} (positive : 0 < denominator)
    (numeratorLow : 2 ^ above ≤ numerator) (numeratorHigh : numerator < 2 ^ (above + 1))
    (denominatorLow : 2 ^ below ≤ denominator) (denominatorHigh : denominator < 2 ^ (below + 1)) :
    (2 : ℚ) ^ ((above : Int) - below - 1) ≤ numerator / denominator ∧
      (numerator : ℚ) / denominator < 2 ^ ((above : Int) - below + 1) := by
  have bottom : (0 : ℚ) < denominator := Nat.cast_pos.mpr positive
  have power : (0 : ℚ) < 2 ^ below := by positivity
  constructor
  · rw [le_div_iff₀ bottom, sub_sub, zpow_sub₀ two_ne_zero, div_mul_eq_mul_div,
      div_le_iff₀ (by positivity)]
    norm_cast
    exact Nat.mul_le_mul numeratorLow denominatorHigh.le
  · rw [div_lt_iff₀ bottom, sub_add_eq_add_sub, zpow_sub₀ two_ne_zero, div_mul_eq_mul_div,
      lt_div_iff₀ (by positivity)]
    norm_cast
    exact Nat.mul_lt_mul_of_lt_of_le numeratorHigh denominatorLow (by positivity)

theorem floorLog2_eq {numerator denominator : Nat} (some : numerator ≠ 0)
    (positive : 0 < denominator) :
    floorLog2 numerator denominator = Int.log 2 ((numerator : ℚ) / denominator) := by
  have bottom : (0 : ℚ) < denominator := Nat.cast_pos.mpr positive
  have value : (0 : ℚ) < numerator / denominator :=
    div_pos (Nat.cast_pos.mpr (Nat.pos_of_ne_zero some)) bottom
  have near := quotient_mem positive (Nat.log2_self_le some) Nat.lt_log2_self
    (Nat.log2_self_le positive.ne') Nat.lt_log2_self
  generalize guess : (numerator.log2 : Int) - denominator.log2 = estimate at near
  have scale : (0 : ℚ) < (powerOfTwo estimate).2 := Nat.cast_pos.mpr (powerOfTwo_pos estimate).2
  have compared : (powerOfTwo estimate).1 * denominator ≤ numerator * (powerOfTwo estimate).2 ↔
      (2 : ℚ) ^ estimate ≤ numerator / denominator := by
    rw [le_div_iff₀ bottom, ← mul_le_mul_iff_of_pos_right scale, mul_right_comm, ← powerOfTwo_eq]
    norm_cast
  symm
  simp only [floorLog2, guess, compared]
  split
  · next low => exact log_eq_of_mem (by decide) value low near.2
  · next high =>
      apply log_eq_of_mem (by decide) value near.1
      rw [sub_add_cancel]
      exact not_le.mp high

/-! ## The nearest natural -/

/-- Whether a natural is the nearest one, where an even one is nearer than an odd one. -/
def Nearest (value : ℚ) (natural : Nat) : Prop :=
  (natural - 1 / 2 < value ∧ value < natural + 1 / 2) ∨
    natural % 2 = 0 ∧ natural - 1 / 2 ≤ value ∧ value ≤ natural + 1 / 2

theorem roundHalfEven_eq {numerator denominator natural : Nat} (positive : 0 < denominator)
    (near : Nearest ((numerator : ℚ) / denominator) natural) :
    roundHalfEven numerator denominator = natural := by
  have bottom : (0 : ℚ) < denominator := Nat.cast_pos.mpr positive
  -- The same in naturals, where the quotient and the rest of the division can be compared.
  have whole : 2 * (natural * denominator) ≤ 2 * numerator + denominator ∧
      2 * numerator ≤ 2 * (natural * denominator) + denominator ∧
      (natural % 2 = 0 ∨ 2 * (natural * denominator) < 2 * numerator + denominator ∧
        2 * numerator < 2 * (natural * denominator) + denominator) := by
    unfold Nearest at near
    rw [lt_div_iff₀ bottom, div_lt_iff₀ bottom, le_div_iff₀ bottom, div_le_iff₀ bottom] at near
    rcases near with ⟨low, high⟩ | ⟨even, low, high⟩
    · have below : (2 * (natural * denominator) : ℚ) < 2 * numerator + denominator := by linarith
      have above : (2 * numerator : ℚ) < 2 * (natural * denominator) + denominator := by linarith
      norm_cast at below above
      exact ⟨below.le, above.le, Or.inr ⟨below, above⟩⟩
    · have below : (2 * (natural * denominator) : ℚ) ≤ 2 * numerator + denominator := by linarith
      have above : (2 * numerator : ℚ) ≤ 2 * (natural * denominator) + denominator := by linarith
      norm_cast at below above
      exact ⟨below, above, Or.inl even⟩
  have division := Nat.div_add_mod numerator denominator
  have rest := Nat.mod_lt numerator positive
  rw [roundHalfEven]
  generalize numerator / denominator = quotient at division ⊢
  generalize numerator % denominator = remainder at division rest ⊢
  rcases whole with ⟨low, high, strict⟩
  have least : quotient ≤ natural := by
    by_contra larger
    have more : denominator * (natural + 1) ≤ denominator * quotient :=
      Nat.mul_le_mul_left _ (by omega)
    rw [Nat.mul_add, Nat.mul_comm denominator natural] at more
    omega
  have greatest : natural ≤ quotient + 1 := by
    by_contra larger
    have more : denominator * (quotient + 2) ≤ denominator * natural :=
      Nat.mul_le_mul_left _ (by omega)
    rw [Nat.mul_add, Nat.mul_comm denominator natural] at more
    omega
  rcases (show natural = quotient ∨ natural = quotient + 1 by omega) with rfl | rfl
  · rw [Nat.mul_comm denominator] at division
    split_ifs <;> omega
  · rw [Nat.mul_comm denominator] at division
    rw [Nat.add_mul] at low high strict
    split_ifs <;> omega

/-- A quotient is rounded to one of the naturals that it lies between. -/
theorem roundHalfEven_mem (numerator denominator : Nat) :
    numerator / denominator ≤ roundHalfEven numerator denominator ∧
      roundHalfEven numerator denominator ≤ numerator / denominator + 1 := by
  rw [roundHalfEven]
  split_ifs <;> omega

/-! ## The nearest number -/

/-- The exponent of the number that a value is rounded to, unless its significand overflows. -/
def exponentOf (value : ℚ) : Int :=
  max (Int.log 2 value - 52) leastExponent

/-- The number with a sign, a significand and an exponent, if there is one. The significand may be
just too large. -/
def make? (negative : Bool) (significand : Nat) (exponent : Int) : Option Binary64 :=
  if significand = 2 ^ 53 then
    if greatestExponent < exponent + 1 then none else some ⟨negative, 2 ^ 52, exponent + 1⟩
  else if greatestExponent < exponent then none
  else if significand = 0 then some (zero negative)
  else some ⟨negative, significand, exponent⟩

theorem scaled_eq (numerator : Nat) {denominator : Nat} (positive : 0 < denominator)
    (exponent : Int) :
    ((numerator * (powerOfTwo exponent).2 : Nat) : ℚ) /
        ((denominator * (powerOfTwo exponent).1 : Nat) : ℚ) =
      numerator / denominator / 2 ^ exponent := by
  have bottom : (denominator : ℚ) ≠ 0 := Nat.cast_ne_zero.mpr positive.ne'
  have scale : ((powerOfTwo exponent).2 : ℚ) ≠ 0 :=
    Nat.cast_ne_zero.mpr (powerOfTwo_pos exponent).2.ne'
  rw [Nat.cast_mul, Nat.cast_mul, powerOfTwo_eq]
  field_simp

section OfRatio

variable {numerator denominator : Nat} (nonzero : numerator ≠ 0) (positive : 0 < denominator)

include nonzero positive

theorem ofRatio?_eq (negative : Bool) {exponent : Int}
    (own : exponentOf ((numerator : ℚ) / denominator) = exponent) :
    ofRatio? negative numerator denominator =
      make? negative (roundHalfEven (numerator * (powerOfTwo exponent).2)
        (denominator * (powerOfTwo exponent).1)) exponent := by
  have own' : max (Int.log 2 ((numerator : ℚ) / denominator) - (precision - 1 : Nat))
      leastExponent = exponent := own
  simp only [ofRatio?, if_neg nonzero, floorLog2_eq nonzero positive, own', make?]
  generalize roundHalfEven _ _ = significand
  by_cases carried : significand = 2 ^ 53
  · simp [carried, precision]
  · have fits : significand ≠ Nat.pow 2 precision := carried
    simp only [if_neg fits, if_neg carried]

/-- A quotient is rounded to the number with the nearest significand. -/
theorem ofRatio?_of_nearest (negative : Bool) {exponent : Int} {significand : Nat}
    (own : exponentOf ((numerator : ℚ) / denominator) = exponent)
    (near : Nearest ((numerator : ℚ) / denominator / 2 ^ exponent) significand) :
    ofRatio? negative numerator denominator = make? negative significand exponent := by
  rw [ofRatio?_eq nonzero positive negative own]
  rw [← scaled_eq numerator positive exponent] at near
  rw [roundHalfEven_eq (Nat.mul_pos positive (powerOfTwo_pos exponent).1) near]

/-- The significand fits, or it is the next larger one. It is as large as the exponent allows. -/
theorem significand_mem {exponent : Int}
    (own : exponentOf ((numerator : ℚ) / denominator) = exponent) :
    roundHalfEven (numerator * (powerOfTwo exponent).2) (denominator * (powerOfTwo exponent).1) ≤
        2 ^ 53 ∧
      (2 ^ 52 ≤ roundHalfEven (numerator * (powerOfTwo exponent).2)
        (denominator * (powerOfTwo exponent).1) ∨ exponent = leastExponent) := by
  have value : (0 : ℚ) < numerator / denominator :=
    div_pos (Nat.cast_pos.mpr (Nat.pos_of_ne_zero nonzero)) (Nat.cast_pos.mpr positive)
  have scale : (0 : ℚ) < 2 ^ exponent := by positivity
  have scaled := scaled_eq numerator positive exponent
  have bottom := Nat.mul_pos positive (powerOfTwo_pos exponent).1
  have near := roundHalfEven_mem (numerator * (powerOfTwo exponent).2)
    (denominator * (powerOfTwo exponent).1)
  have wide : (0 : ℚ) < (denominator * (powerOfTwo exponent).1 : Nat) := Nat.cast_pos.mpr bottom
  constructor
  · have log : Int.log 2 ((numerator : ℚ) / denominator) < exponent + 53 := by
      unfold exponentOf at own
      omega
    have above := (Int.lt_zpow_iff_log_lt (by decide) value).mpr log
    rw [Nat.cast_ofNat, zpow_add₀ two_ne_zero, ← div_lt_iff₀' scale, ← scaled,
      div_lt_iff₀ wide] at above
    norm_cast at above
    have least := (Nat.div_lt_iff_lt_mul bottom).mpr above
    omega
  · by_cases subnormal : exponent = leastExponent
    · exact Or.inr subnormal
    · have log : exponent + 52 ≤ Int.log 2 ((numerator : ℚ) / denominator) := by
        unfold exponentOf at own
        omega
      have below := (Int.zpow_le_iff_le_log (by decide) value).mpr log
      rw [Nat.cast_ofNat, zpow_add₀ two_ne_zero, ← le_div_iff₀' scale, ← scaled,
        le_div_iff₀ wide] at below
      norm_cast at below
      have least := (Nat.le_div_iff_mul_le bottom).mpr below
      exact Or.inl (by omega)

theorem isCanonical_of_ofRatio? {negative : Bool} {number : Binary64}
    (rounded : ofRatio? negative numerator denominator = some number) : number.IsCanonical := by
  rw [ofRatio?_eq nonzero positive negative rfl] at rounded
  obtain ⟨fits, large⟩ := significand_mem nonzero positive rfl
  have least : leastExponent ≤ exponentOf ((numerator : ℚ) / denominator) := le_max_right _ _
  generalize roundHalfEven _ _ = significand at rounded fits large
  generalize exponentOf _ = exponent at rounded large least
  unfold make? at rounded
  split_ifs at rounded with carried beyond beyond small
  · obtain rfl := Option.some.inj rounded
    exact ⟨by norm_num, least.trans (Int.le_add_one le_rfl), not_lt.mp beyond, Or.inl le_rfl⟩
  · obtain rfl := Option.some.inj rounded
    exact isCanonical_zero negative
  · obtain rfl := Option.some.inj rounded
    exact ⟨lt_of_le_of_ne fits carried, least, not_lt.mp beyond, large⟩

end OfRatio

/-! ## The interval of a number -/

/-- Whether a value lies in the interval of a number, to which the ends belong if the significand is
even. -/
def Covers (number : Binary64) (value : ℚ) : Prop :=
  (lowerQuarters number * 2 ^ (number.exponent - 2) < value ∧
      value < upperQuarters number * 2 ^ (number.exponent - 2)) ∨
    number.significand % 2 = 0 ∧ lowerQuarters number * 2 ^ (number.exponent - 2) ≤ value ∧
      value ≤ upperQuarters number * 2 ^ (number.exponent - 2)

section Covers

variable {number : Binary64} {value : ℚ}

/-- The interval in units of the last place. -/
theorem Covers.scaled (covers : number.Covers value) :
    ((lowerQuarters number : ℚ) / 4 < value / 2 ^ number.exponent ∧
        value / 2 ^ number.exponent < number.significand + 1 / 2) ∨
      number.significand % 2 = 0 ∧ (lowerQuarters number : ℚ) / 4 ≤ value / 2 ^ number.exponent ∧
        value / 2 ^ number.exponent ≤ number.significand + 1 / 2 := by
  have scale : (0 : ℚ) < 2 ^ number.exponent := by positivity
  have unit : (2 : ℚ) ^ (number.exponent - 2) = 2 ^ number.exponent / 4 := by
    rw [zpow_sub₀ two_ne_zero]
    norm_num
  have high : ((upperQuarters number : Nat) : ℚ) = 4 * (number.significand + 1 / 2) := by
    rw [upperQuarters]
    push_cast
    ring
  rw [lt_div_iff₀ scale, div_lt_iff₀ scale, le_div_iff₀ scale, div_le_iff₀ scale]
  unfold Covers at covers
  rw [unit, high] at covers
  rcases covers with ⟨low, above⟩ | ⟨even, low, above⟩
  · exact Or.inl ⟨by linarith, by linarith⟩
  · exact Or.inr ⟨even, by linarith, by linarith⟩

theorem le_lowerQuarters (number : Binary64) :
    (number.significand : ℚ) - 1 / 2 ≤ (lowerQuarters number : ℚ) / 4 := by
  have whole : 4 * number.significand ≤ lowerQuarters number + 2 := by
    unfold lowerQuarters
    split_ifs <;> omega
  have cast : (4 * number.significand : ℚ) ≤ lowerQuarters number + 2 := by exact_mod_cast whole
  linarith

theorem Covers.nearest (covers : number.Covers value) :
    Nearest (value / 2 ^ number.exponent) number.significand := by
  have least := le_lowerQuarters number
  rcases covers.scaled with ⟨low, high⟩ | ⟨even, low, high⟩
  · exact Or.inl ⟨by linarith, high⟩
  · exact Or.inr ⟨even, by linarith, high⟩

theorem Covers.bounds (covers : number.Covers value) :
    (lowerQuarters number : ℚ) / 4 ≤ value / 2 ^ number.exponent ∧
      value / 2 ^ number.exponent ≤ number.significand + 1 / 2 := by
  rcases covers.scaled with ⟨low, high⟩ | ⟨-, low, high⟩
  · exact ⟨low.le, high.le⟩
  · exact ⟨low, high⟩

theorem Covers.pos (covers : number.Covers value) (nonzero : number.significand ≠ 0) :
    0 < value := by
  have scale : (0 : ℚ) < 2 ^ number.exponent := by positivity
  have one : (1 : ℚ) ≤ number.significand := by exact_mod_cast Nat.pos_of_ne_zero nonzero
  have least := le_lowerQuarters number
  have unit : 0 < value / 2 ^ number.exponent := by linarith [covers.bounds.1]
  exact (div_pos_iff_of_pos_right scale).mp unit

/-- Below the binade of the number there is its interval only if the number starts the binade. -/
theorem Covers.starts (covers : number.Covers value) (canonical : number.IsCanonical)
    (normal : leastExponent < number.exponent) (small : value / 2 ^ number.exponent < 2 ^ 52) :
    number.significand = 2 ^ 52 ∧ (2 ^ 52 - 1 / 4 : ℚ) ≤ value / 2 ^ number.exponent := by
  have large : 2 ^ 52 ≤ number.significand :=
    canonical.normal.resolve_right normal.ne'
  have least := le_lowerQuarters number
  have bounds := covers.bounds
  have equal : number.significand = 2 ^ 52 := by
    by_contra other
    have more : (2 ^ 52 + 1 : ℚ) ≤ number.significand := by
      exact_mod_cast Nat.lt_of_le_of_ne large (Ne.symm other)
    linarith
  refine ⟨equal, ?_⟩
  have quarters : lowerQuarters number = 4 * 2 ^ 52 - 1 := by
    rw [lowerQuarters, if_pos ⟨equal, normal⟩, equal]
  rw [quarters] at bounds
  norm_num at bounds ⊢
  exact bounds.1

/-- Every value in the interval of a number is rounded to the number. -/
theorem ofRatio?_eq_some {numerator denominator : Nat} (positive : 0 < denominator)
    (canonical : number.IsCanonical) (nonzero : number.significand ≠ 0)
    (covers : number.Covers (numerator / denominator)) :
    ofRatio? number.negative numerator denominator = some number := by
  have value := covers.pos nonzero
  have wide : (0 : ℚ) < denominator := Nat.cast_pos.mpr positive
  have top : numerator ≠ 0 := by
    rintro rfl
    simp at value
  have scale : (0 : ℚ) < 2 ^ number.exponent := by positivity
  have fits : (number.significand + 1 : ℚ) ≤ 2 ^ 53 := by exact_mod_cast canonical.significand
  have log : Int.log 2 ((numerator : ℚ) / denominator) < number.exponent + 53 := by
    rw [← Int.lt_zpow_iff_log_lt (by decide) value, Nat.cast_ofNat, zpow_add₀ two_ne_zero,
      ← div_lt_iff₀' scale]
    exact lt_of_le_of_lt covers.bounds.2 (by norm_num at fits ⊢; linarith)
  have least := canonical.least
  by_cases inside : number.exponent = leastExponent ∨
      2 ^ 52 ≤ (numerator : ℚ) / denominator / 2 ^ number.exponent
  · -- The value has the exponent of the number.
    have own : exponentOf ((numerator : ℚ) / denominator) = number.exponent := by
      unfold exponentOf
      rcases inside with subnormal | normal
      · omega
      · rw [le_div_iff₀' scale, show (2 ^ 52 : ℚ) = 2 ^ (52 : Int) by norm_num,
          ← zpow_add₀ two_ne_zero] at normal
        have above := (Int.zpow_le_iff_le_log (b := 2) (by decide) value).mp
          (by exact_mod_cast normal)
        omega
    rw [ofRatio?_of_nearest top positive number.negative own (covers.nearest), make?,
      if_neg canonical.significand.ne, if_neg (not_lt.mpr canonical.greatest), if_neg nonzero]
  · -- The value is one binade lower, and its significand overflows.
    rw [not_or, not_le] at inside
    obtain ⟨subnormal, small⟩ := inside
    have normal : leastExponent < number.exponent := by omega
    obtain ⟨equal, near⟩ := covers.starts canonical normal small
    have log : Int.log 2 ((numerator : ℚ) / denominator) = number.exponent + 51 := by
      apply log_eq_of_mem (by decide) value
      · rw [Nat.cast_ofNat, zpow_add₀ two_ne_zero, ← le_div_iff₀' scale]
        exact le_trans (by norm_num) near
      · rw [add_assoc, Nat.cast_ofNat, zpow_add₀ two_ne_zero, ← div_lt_iff₀' scale]
        exact small
    have own : exponentOf ((numerator : ℚ) / denominator) = number.exponent - 1 := by
      unfold exponentOf
      omega
    have doubled : (numerator : ℚ) / denominator / 2 ^ (number.exponent - 1) =
        2 * ((numerator : ℚ) / denominator / 2 ^ number.exponent) := by
      rw [zpow_sub₀ two_ne_zero]
      field_simp
    have overflow :
        Nearest ((numerator : ℚ) / denominator / 2 ^ (number.exponent - 1)) (2 ^ 53) := by
      rw [doubled]
      refine Or.inr ⟨by norm_num, ?_, ?_⟩ <;> push_cast <;> linarith
    rw [ofRatio?_of_nearest top positive number.negative own overflow, make?, if_pos rfl,
      sub_add_cancel, if_neg (not_lt.mpr canonical.greatest), ← equal]

end Covers

end SchemaLift.Binary64
