import SchemaLift.Proofs.Number.Rounding

/-!
# Shortest decimals

The shortest decimal of a canonical number lies in the interval of the number
(`Binary64.shortest_covers`): on the grid of seventeen digits one of the two neighbours of the
number is nearer than half of the way to the next number. So it is rounded to the number again
(`Binary64.ofDecimal?_shortest`).
-/

namespace SchemaLift

/-- The value of a decimal. -/
def Decimal.value (decimal : Decimal) : ℚ :=
  decimal.digits * 10 ^ decimal.exponent

theorem Decimal.trimZeros_value (fuel : Nat) (decimal : Decimal) :
    (decimal.trimZeros fuel).value = decimal.value := by
  induction fuel generalizing decimal with
  | zero => rfl
  | succ fuel ih =>
    rw [trimZeros]
    split
    · next whole =>
        have digits : (decimal.digits : ℚ) = (decimal.digits / 10 : Nat) * 10 := by
          exact_mod_cast (Nat.div_mul_cancel (Nat.dvd_of_mod_eq_zero whole)).symm
        rw [ih, value, value, digits, zpow_add_one₀ (by norm_num)]
        ring
    · rfl

namespace Binary64

/-! ## Grids -/

theorem gridFactors_eq (number : Binary64) (grid : Int) :
    ∃ scale : ℚ, 0 < scale ∧ ((gridFactors number grid).1 : ℚ) = 10 ^ grid * scale ∧
      ((gridFactors number grid).2 : ℚ) = 2 ^ (number.exponent - 2) * scale := by
  have two := (powerOfTwo_pos (number.exponent - 2)).2
  have ten := (powerOfTen_pos grid).2
  refine ⟨(powerOfTwo (number.exponent - 2)).2 * (powerOfTen grid).2, by positivity, ?_, ?_⟩
  · rw [gridFactors, Nat.cast_mul, powerOfTen_eq]
    ring
  · rw [gridFactors, Nat.cast_mul, powerOfTwo_eq]
    ring

/-- Candidates on a grid are compared with quarters of the last place by their values. -/
theorem quarters_le_candidate (number : Binary64) (grid : Int) (quarters candidate : Nat) :
    quarters * (gridFactors number grid).2 ≤ candidate * (gridFactors number grid).1 ↔
      (quarters : ℚ) * 2 ^ (number.exponent - 2) ≤ candidate * 10 ^ grid := by
  obtain ⟨scale, positive, ten, two⟩ := gridFactors_eq number grid
  rw [← mul_le_mul_iff_of_pos_right positive, mul_assoc, mul_assoc, ← ten, ← two]
  norm_cast

theorem candidate_le_quarters (number : Binary64) (grid : Int) (quarters candidate : Nat) :
    candidate * (gridFactors number grid).1 ≤ quarters * (gridFactors number grid).2 ↔
      (candidate : ℚ) * 10 ^ grid ≤ quarters * 2 ^ (number.exponent - 2) := by
  obtain ⟨scale, positive, ten, two⟩ := gridFactors_eq number grid
  rw [← mul_le_mul_iff_of_pos_right positive, mul_assoc, mul_assoc, ← ten, ← two]
  norm_cast

theorem roundsFrom_iff {number : Binary64} {grid : Int} {candidate : Nat} :
    roundsFrom number grid candidate = true ↔ number.Covers (candidate * 10 ^ grid) := by
  have low := quarters_le_candidate number grid (lowerQuarters number) candidate
  have high := candidate_le_quarters number grid (upperQuarters number) candidate
  have below := lt_iff_lt_of_le_iff_le
    (candidate_le_quarters number grid (lowerQuarters number) candidate)
  have above := lt_iff_lt_of_le_iff_le
    (quarters_le_candidate number grid (upperQuarters number) candidate)
  unfold Covers
  rw [← low, ← high, ← below, ← above]
  simp only [roundsFrom]
  split
  · next even =>
      simp only [Bool.and_eq_true, decide_eq_true_eq]
      omega
  · next odd =>
      simp only [Bool.and_eq_true, decide_eq_true_eq]
      omega

theorem onGrid?_covers {number : Binary64} {grid : Int} {digits : Nat}
    (found : onGrid? number grid = some digits) : number.Covers (digits * 10 ^ grid) := by
  simp only [onGrid?] at found
  rw [← roundsFrom_iff]
  split at found
  · simp at found
  · next below _ =>
      obtain rfl := Option.some.inj found
      exact (Bool.and_eq_true_iff.mp below).1
  · next _ above =>
      obtain rfl := Option.some.inj found
      exact above
  · next below above =>
      split_ifs at found
      all_goals obtain rfl := Option.some.inj found
      · exact (Bool.and_eq_true_iff.mp below).1
      · exact above
      · exact (Bool.and_eq_true_iff.mp below).1
      · exact above

/-! ## Digits before the point -/

theorem lt_pow_digitCount (natural : Nat) : natural < 10 ^ digitCount natural :=
  (Nat.length_toDigits_le_iff (by decide) Nat.length_toDigits_pos).mp le_rfl

theorem pow_digitCount_le {natural : Nat} (nonzero : natural ≠ 0) :
    10 ^ (digitCount natural - 1) ≤ natural := by
  by_cases short : digitCount natural - 1 = 0
  · rw [short]
    omega
  · by_contra small
    have fewer : digitCount natural ≤ digitCount natural - 1 :=
      (Nat.length_toDigits_le_iff (by decide) (by omega)).mpr (not_le.mp small)
    omega

theorem digitCount_pos (natural : Nat) : 0 < digitCount natural :=
  Nat.length_toDigits_pos

/-- The digits of a decimal and its exponent say between which powers of ten it lies. -/
theorem decimal_mem {digits : Nat} (some : digits ≠ 0) (exponent : Int) :
    (10 : ℚ) ^ ((digitCount digits : Int) + exponent - 1) ≤ digits * 10 ^ exponent ∧
      (digits : ℚ) * 10 ^ exponent < 10 ^ ((digitCount digits : Int) + exponent) := by
  have ten : (0 : ℚ) < 10 ^ exponent := by positivity
  have least := pow_digitCount_le some
  have greatest := lt_pow_digitCount digits
  have count := digitCount_pos digits
  generalize digitCount digits = digitCount at least greatest count
  obtain ⟨power, rfl⟩ := Nat.exists_eq_add_of_lt count
  rw [zero_add, Nat.add_sub_cancel] at *
  constructor
  · rw [Nat.cast_add, Nat.cast_one, show (power : Int) + 1 + exponent - 1 = power + exponent by ring,
      zpow_add₀ (by norm_num)]
    exact mul_le_mul_of_nonneg_right (by exact_mod_cast least) ten.le
  · rw [zpow_add₀ (by norm_num)]
    exact mul_lt_mul_of_pos_right (by exact_mod_cast greatest) ten

/-- The digits of the whole part of a quotient say between which powers of ten it lies. -/
theorem quotient_digits {numerator denominator : Nat} (positive : 0 < denominator)
    (large : denominator ≤ numerator) :
    (10 : ℚ) ^ ((digitCount (numerator / denominator) : Int) - 1) ≤ numerator / denominator ∧
      (numerator : ℚ) / denominator < 10 ^ (digitCount (numerator / denominator) : Int) := by
  have bottom : (0 : ℚ) < denominator := Nat.cast_pos.mpr positive
  have least := pow_digitCount_le (Nat.div_pos large positive).ne'
  have greatest := lt_pow_digitCount (numerator / denominator)
  have count := digitCount_pos (numerator / denominator)
  generalize digitCount (numerator / denominator) = digits at least greatest count
  obtain ⟨power, rfl⟩ := Nat.exists_eq_add_of_lt count
  rw [zero_add, Nat.add_sub_cancel] at *
  rw [Nat.le_div_iff_mul_le positive] at least
  rw [Nat.div_lt_iff_lt_mul positive] at greatest
  push_cast
  rw [add_sub_cancel_right, le_div_iff₀ bottom, div_lt_iff₀ bottom]
  exact ⟨by exact_mod_cast least, by exact_mod_cast greatest⟩

/-- The absolute value of a number. -/
def value (number : Binary64) : ℚ :=
  number.significand * 2 ^ number.exponent

theorem magnitude_eq (number : Binary64) :
    (number.magnitude.1 : ℚ) = number.value * number.magnitude.2 := by
  simp only [magnitude, value]
  rw [Nat.cast_mul, powerOfTwo_eq]
  ring

theorem magnitude_pos {number : Binary64} (nonzero : number.significand ≠ 0) :
    0 < number.magnitude.1 ∧ 0 < number.magnitude.2 :=
  ⟨Nat.mul_pos (Nat.pos_of_ne_zero nonzero) (powerOfTwo_pos _).1, (powerOfTwo_pos _).2⟩

theorem integerDigits_mem {number : Binary64} (nonzero : number.significand ≠ 0) :
    (10 : ℚ) ^ (integerDigits number - 1) ≤ number.value := by
  obtain ⟨top, bottom⟩ := magnitude_pos nonzero
  have quotient : number.value = number.magnitude.1 / number.magnitude.2 := by
    rw [magnitude_eq, mul_div_cancel_right₀ _ (Nat.cast_ne_zero.mpr bottom.ne')]
  rw [quotient]
  simp only [integerDigits]
  split
  · next large => exact (quotient_digits bottom large).1
  · next small =>
      have inverse := (quotient_digits top (Nat.le_of_not_le small)).2
      rw [sub_sub_cancel_left, zpow_neg, ← inv_div]
      exact (inv_strictAnti₀ (by positivity) inverse).le

/-! ## Seventeen digits -/

theorem quarters_value (number : Binary64) :
    (quarters number : ℚ) * 2 ^ (number.exponent - 2) = number.value := by
  rw [quarters, value, zpow_sub₀ two_ne_zero]
  push_cast
  ring

/-- The neighbours of a number on a grid. -/
theorem below_mem (number : Binary64) (grid : Int) :
    ((quarters number * (gridFactors number grid).2 / (gridFactors number grid).1 : Nat) : ℚ) *
        10 ^ grid ≤ number.value ∧
      number.value < ((quarters number * (gridFactors number grid).2 /
        (gridFactors number grid).1 + 1 : Nat) : ℚ) * 10 ^ grid := by
  have positive : 0 < (gridFactors number grid).1 :=
    Nat.mul_pos (powerOfTwo_pos _).2 (powerOfTen_pos _).1
  constructor
  · rw [← quarters_value, ← candidate_le_quarters]
    exact Nat.div_mul_le_self _ _
  · rw [← quarters_value, ← lt_iff_lt_of_le_iff_le (candidate_le_quarters _ _ _ _)]
    exact (Nat.div_lt_iff_lt_mul positive).mp (Nat.lt_succ_self _)

/-- The lower end is half of a place away, or a quarter at the start of a binade. -/
theorem lowerQuarters_cases {number : Binary64} (nonzero : number.significand ≠ 0) :
    (lowerQuarters number : ℚ) = 4 * number.significand - 2 ∨
      (lowerQuarters number : ℚ) = 4 * number.significand - 1 ∧ number.significand = 2 ^ 52 := by
  have positive := Nat.pos_of_ne_zero nonzero
  unfold lowerQuarters
  split_ifs with start
  · right
    rw [Nat.cast_sub (by omega)]
    exact ⟨by push_cast; ring, start.1⟩
  · left
    rw [Nat.cast_sub (by omega)]
    push_cast
    ring

/-- Of two neighbours with at least seventeen digits one is rounded to the number. -/
theorem covers_neighbour {number : Binary64} (canonical : number.IsCanonical)
    (nonzero : number.significand ≠ 0) {step below : ℚ} (fine : step * 10 ^ 16 ≤ number.value)
    (low : below ≤ number.value) (high : number.value < below + step) :
    number.Covers below ∨ number.Covers (below + step) := by
  have unit : (2 : ℚ) ^ (number.exponent - 2) = 2 ^ number.exponent / 4 := by
    rw [zpow_sub₀ two_ne_zero]
    norm_num
  have place : (0 : ℚ) < 2 ^ number.exponent := by positivity
  have fits : number.value < 2 ^ 53 * 2 ^ number.exponent :=
    mul_lt_mul_of_pos_right (by exact_mod_cast canonical.significand) place
  have lower := lowerQuarters_cases nonzero
  have upper : ((upperQuarters number : Nat) : ℚ) * (2 ^ number.exponent / 4) =
      number.value + 2 ^ number.exponent / 2 := by
    rw [upperQuarters, value]
    push_cast
    ring
  unfold Covers
  rw [unit, upper]
  by_cases near : below + step < number.value + 2 ^ number.exponent / 2
  · refine Or.inr (Or.inl ⟨lt_of_lt_of_le ?_ high.le, near⟩)
    rcases lower with half | ⟨quarter, -⟩
    · rw [half]
      unfold value
      linarith
    · rw [quarter]
      unfold value
      linarith
  · refine Or.inl (Or.inl ⟨?_, by linarith⟩)
    rcases lower with half | ⟨-, start⟩
    · rw [half, show (4 * number.significand - 2 : ℚ) * (2 ^ number.exponent / 4) =
        number.value - 2 ^ number.exponent / 2 by unfold value; ring]
      norm_num at fine fits
      linarith
    · -- At the start of a binade the numbers above lie so far apart that this does not happen.
      have exact : number.value = 2 ^ 52 * 2 ^ number.exponent := by
        rw [value, start]
        norm_num
      norm_num at fine exact
      linarith

theorem onGrid?_isSome {number : Binary64} (canonical : number.IsCanonical)
    (nonzero : number.significand ≠ 0) :
    (onGrid? number (integerDigits number - 17)).isSome = true := by
  have large := integerDigits_mem nonzero
  have step : (10 : ℚ) ^ (integerDigits number - 17) * 10 ^ 16 =
      10 ^ (integerDigits number - 1) := by
    rw [show integerDigits number - 1 = integerDigits number - 17 + 16 by ring,
      zpow_add₀ (by norm_num)]
    norm_num
  generalize integerDigits number - 17 = grid at step
  rw [← step] at large
  obtain ⟨low, high⟩ := below_mem number grid
  rw [Nat.cast_add, Nat.cast_one, add_mul, one_mul] at high
  have one := covers_neighbour canonical nonzero large low high
  have positive : (0 : ℚ) < 10 ^ grid := by positivity
  simp only [onGrid?]
  generalize quarters number * (gridFactors number grid).2 / (gridFactors number grid).1 = below
    at low high one
  have some : below ≠ 0 := by
    rintro rfl
    norm_num at high large
    linarith
  have neighbour : roundsFrom number grid below = true ∨
      roundsFrom number grid (below + 1) = true := by
    rw [roundsFrom_iff, roundsFrom_iff, Nat.cast_add, Nat.cast_one, add_mul, one_mul]
    exact one
  split
  · next rejected above =>
      simp_all
  · rfl
  · rfl
  · split_ifs <;> rfl

/-- What is tried covers the last grid, so a decimal is found that is rounded to the number. -/
theorem shortestFrom_covers {number : Binary64} {position : Int} {fuel count : Nat}
    (last : (onGrid? number (position - (count + fuel : Nat))).isSome = true) :
    number.Covers (shortestFrom number position (fuel + 1) count).value := by
  induction fuel generalizing count with
  | zero =>
    obtain ⟨digits, found⟩ := Option.isSome_iff_exists.mp last
    rw [Nat.add_zero] at found
    rw [shortestFrom, found]
    exact onGrid?_covers found
  | succ fuel ih =>
    rw [shortestFrom]
    split
    · next digits found => exact onGrid?_covers found
    · next missing =>
        apply ih
        rw [Nat.add_right_comm, Nat.add_assoc]
        exact last

section Shortest

variable {number : Binary64} (canonical : number.IsCanonical) (nonzero : number.significand ≠ 0)

include canonical nonzero

/-- The shortest decimal of a number lies in the interval of the number. -/
theorem shortest_covers : number.Covers (shortest number).value := by
  rw [shortest, if_neg nonzero, Decimal.trimZeros_value]
  exact shortestFrom_covers (onGrid?_isSome canonical nonzero)

/-! ## Reading a decimal -/

/-- No value in the interval of a number is cut off as too large or too small. -/
theorem Covers.range {value : ℚ} (covers : number.Covers value) :
    10 ^ (-400 : Int) < value ∧ value < 10 ^ (400 : Int) := by
  obtain ⟨low, high⟩ := covers.bounds
  have place : (0 : ℚ) < 2 ^ number.exponent := by positivity
  have one : (1 : ℚ) ≤ number.significand := by exact_mod_cast Nat.pos_of_ne_zero nonzero
  have fits : (number.significand + 1 : ℚ) ≤ 2 ^ 53 := by exact_mod_cast canonical.significand
  have least := le_lowerQuarters number
  have eight : (2 : ℚ) ^ (3 : Int) < 10 := by norm_num
  constructor
  · calc (10 : ℚ) ^ (-400 : Int) < (2 ^ (3 : Int)) ^ (-400 : Int) := by
          have larger : ((2 : ℚ) ^ (3 : Int)) ^ (400 : Int) < 10 ^ (400 : Int) :=
            pow_lt_pow_left₀ eight (by positivity) (by decide)
          rw [zpow_neg, zpow_neg]
          exact inv_strictAnti₀ (zpow_pos (by positivity) _) larger
      _ ≤ 2 ^ (-1 : Int) * 2 ^ number.exponent := by
          rw [← zpow_mul, ← zpow_add₀ two_ne_zero]
          apply zpow_le_zpow_right₀ (by norm_num)
          have := canonical.least
          unfold leastExponent at this
          omega
      _ ≤ value := by
          rw [← le_div_iff₀ place]
          norm_num
          linarith
  · calc value < 2 ^ (53 : Int) * 2 ^ number.exponent := by
          rw [← div_lt_iff₀ place]
          norm_num at fits ⊢
          linarith
      _ ≤ (2 ^ (3 : Int)) ^ (400 : Int) := by
          rw [← zpow_mul, ← zpow_add₀ two_ne_zero]
          apply zpow_le_zpow_right₀ (by norm_num)
          have := canonical.greatest
          unfold greatestExponent at this
          omega
      _ < 10 ^ (400 : Int) := pow_lt_pow_left₀ eight (by positivity) (by decide)

/-- A decimal in the interval of a number is rounded to the number. -/
theorem ofDecimal?_eq_some {digits : Nat} {exponent : Int}
    (covers : number.Covers (digits * 10 ^ exponent)) :
    ofDecimal? number.negative digits exponent = some number := by
  have some : digits ≠ 0 := by
    rintro rfl
    simpa using covers.pos nonzero
  obtain ⟨low, high⟩ := covers.range canonical nonzero
  obtain ⟨least, greatest⟩ := decimal_mem some exponent
  have small : ¬ 400 < (digitCount digits : Int) + exponent := by
    intro beyond
    have more : (10 : ℚ) ^ (400 : Int) ≤ 10 ^ ((digitCount digits : Int) + exponent - 1) :=
      zpow_le_zpow_right₀ (by norm_num) (by omega)
    exact absurd (more.trans least) (not_le.mpr high)
  have large : ¬ (digitCount digits : Int) + exponent < -400 := by
    intro beyond
    have less : (10 : ℚ) ^ ((digitCount digits : Int) + exponent) ≤ 10 ^ (-400 : Int) :=
      zpow_le_zpow_right₀ (by norm_num) beyond.le
    exact absurd (greatest.trans_le less) (not_lt.mpr low.le)
  simp only [ofDecimal?, if_neg some, if_neg small, if_neg large]
  apply ofRatio?_eq_some (powerOfTen_pos exponent).2 canonical nonzero
  have bottom : ((powerOfTen exponent).2 : ℚ) ≠ 0 :=
    Nat.cast_ne_zero.mpr (powerOfTen_pos exponent).2.ne'
  rw [Nat.cast_mul, powerOfTen_eq, mul_div_assoc, mul_div_cancel_right₀ _ bottom]
  exact covers

end Shortest

/-- A decimal is rounded to a canonical number. -/
theorem isCanonical_of_ofDecimal? {negative : Bool} {digits : Nat} {exponent : Int}
    {number : Binary64} (rounded : ofDecimal? negative digits exponent = some number) :
    number.IsCanonical := by
  simp only [ofDecimal?] at rounded
  split_ifs at rounded with none
  · cases rounded
    exact isCanonical_zero negative
  · cases rounded
    exact isCanonical_zero negative
  · have scale := powerOfTen_pos exponent
    exact isCanonical_of_ofRatio? (Nat.mul_ne_zero none scale.1.ne') scale.2 rounded

end Binary64

end SchemaLift
