import Mathlib.Tactic.IntervalCases
import SchemaLift.Json.Printer
import SchemaLift.Proofs.Number.Shortest
import SchemaLift.Yaml.Scalar

/-!
# Numbers as plain scalars

The text of a number, read as a plain scalar, is the number again
(`Yaml.Scalar.ofPlain_numberText`), for the integers of 64 bits and the canonical binary64 numbers.
-/

namespace SchemaLift

namespace Yaml.Scalar

/-! ## Digits -/

theorem digitValue?_digit {char : Char} (digit : char.isDigit = true) :
    digitValue? 10 char = some (char.toNat - '0'.toNat) := by
  have range : '0' ≤ char ∧ char ≤ '9' := by
    simpa [Char.isDigit, Char.le_def] using digit
  have small : char.toNat ≤ '9'.toNat := range.2
  have least : '0'.toNat ≤ char.toNat := range.1
  have value : char.toNat - '0'.toNat < 10 := by
    have zero : '0'.toNat = 48 := rfl
    have nine : '9'.toNat = 57 := rfl
    omega
  simp only [digitValue?, if_pos range, if_pos value]

theorem natural?_digits {digits : List Char} (nonempty : digits ≠ [])
    (all : ∀ char ∈ digits, char.isDigit = true) :
    natural? 10 digits = some (Nat.ofDigitChars 10 digits 0) := by
  have fold (value : Nat) : digits.foldlM (fun value char => do
      pure (value * 10 + (← digitValue? 10 char))) value =
        some (Nat.ofDigitChars 10 digits value) := by
    clear nonempty
    induction digits generalizing value with
    | nil => rfl
    | cons char rest ih =>
      rw [List.foldlM_cons, digitValue?_digit (all char List.mem_cons_self)]
      rw [Nat.ofDigitChars_cons, Nat.mul_comm]
      exact ih (fun other mem => all other (List.mem_cons_of_mem _ mem)) _
  rw [natural?, if_neg (by simpa using nonempty)]
  exact fold 0

/-- What follows a run of digits ends it. -/
theorem span_digits {digits : List Char} (rest : List Char)
    (all : ∀ char ∈ digits, char.isDigit = true)
    (stops : ∀ char ∈ rest.head?, char.isDigit = false) :
    (digits ++ rest).span Char.isDigit = (digits, rest) := by
  have none : rest.takeWhile Char.isDigit = [] ∧ rest.dropWhile Char.isDigit = rest := by
    cases rest with
    | nil => exact ⟨rfl, rfl⟩
    | cons char rest =>
      have stop := stops char rfl
      simp [stop]
  rw [List.span_eq_takeWhile_dropWhile, List.takeWhile_append_of_pos all,
    List.dropWhile_append_of_pos all, none.1, none.2, List.append_nil]

/-! ## Numbers with a point or an exponent -/

section Finite

variable (negative : Bool) {exponent : Int}

/-- A number without a sign starts with a digit, so that its sign is clear. -/
theorem finite?_sign {first : Char} (digit : first.isDigit = true)
    (rest : List Char) :
    finite? ((if negative then ['-'] else []) ++ first :: rest) = (do
      let (whole, rest) := (first :: rest).span Char.isDigit
      let (fraction, rest) : List Char × List Char :=
        match rest with
        | '.' :: rest => rest.span Char.isDigit
        | _ => ([], rest)
      let digits ← natural? 10 (whole ++ fraction)
      let exponent ← exponent? rest
      Binary64.ofDecimal? negative digits (exponent - fraction.length)) := by
  cases negative with
  | true => rfl
  | false =>
    have minus : first ≠ '-' := by
      rintro rfl
      simp at digit
    have plus : first ≠ '+' := by
      rintro rfl
      simp at digit
    rw [finite?]
    · rfl
    · simpa using minus
    · simpa using plus

theorem finite?_point {whole : List Char} (fraction tail : List Char) (nonempty : whole ≠ [])
    (all : ∀ char ∈ whole ++ fraction, char.isDigit = true)
    (stops : ∀ char ∈ tail.head?, char.isDigit = false) (read : exponent? tail = some exponent) :
    finite? ((if negative then ['-'] else []) ++ (whole ++ '.' :: (fraction ++ tail))) =
      Binary64.ofDecimal? negative (Nat.ofDigitChars 10 (whole ++ fraction) 0)
        (exponent - fraction.length) := by
  have before := span_digits ('.' :: (fraction ++ tail))
    (fun char mem => all char (List.mem_append_left _ mem)) (by simp)
  have after := span_digits tail (fun char mem => all char (List.mem_append_right _ mem)) stops
  have digits := natural?_digits (by simp [nonempty]) all
  cases whole with
  | nil => exact absurd rfl nonempty
  | cons first whole =>
    rw [List.cons_append, finite?_sign negative (all first (by simp)), ← List.cons_append, before]
    simp only [after, digits, read, Option.bind_eq_bind, Option.bind_some]

theorem finite?_whole {whole : List Char} (tail : List Char) (nonempty : whole ≠ [])
    (all : ∀ char ∈ whole, char.isDigit = true)
    (stops : ∀ char ∈ tail.head?, char.isDigit = false ∧ char ≠ '.')
    (read : exponent? tail = some exponent) :
    finite? ((if negative then ['-'] else []) ++ (whole ++ tail)) =
      Binary64.ofDecimal? negative (Nat.ofDigitChars 10 whole 0) exponent := by
  have before := span_digits tail all (fun char mem => (stops char mem).1)
  have digits := natural?_digits nonempty all
  cases whole with
  | nil => exact absurd rfl nonempty
  | cons first whole =>
    rw [List.cons_append, finite?_sign negative (all first (by simp)), ← List.cons_append, before]
    cases tail with
    | nil => simp [digits, read]
    | cons mark tail =>
      have point : mark ≠ '.' := (stops mark rfl).2
      simp [digits, read, point]

end Finite

theorem digits_toDigits (natural : Nat) :
    ∀ char ∈ Nat.toDigits 10 natural, char.isDigit = true :=
  fun _ mem => Nat.isDigit_of_mem_toDigits (by decide) (by decide) mem

theorem natural?_toDigits (natural : Nat) : natural? 10 (Nat.toDigits 10 natural) = some natural := by
  rw [natural?_digits Nat.toDigits_ne_nil (digits_toDigits natural),
    Nat.ofDigitChars_ten_toDigits]

/-- An exponent as it is written, with or without a plus sign. -/
theorem exponent?_power (plusSign : Bool) (power : Int) :
    exponent? ('e' :: (if power < 0 then ['-'] else if plusSign then ['+'] else []) ++
      Nat.toDigits 10 power.natAbs) = some power := by
  have read := natural?_toDigits power.natAbs
  by_cases below : power < 0
  · rw [if_pos below]
    have value : -((power.natAbs : Nat) : Int) = power := by omega
    change (natural? 10 (Nat.toDigits 10 power.natAbs)).map (fun value => -(value : Int)) = _
    rw [read]
    exact congrArg some value
  · rw [if_neg below]
    have value : ((power.natAbs : Nat) : Int) = power := by omega
    cases plusSign with
    | true =>
      change (natural? 10 (Nat.toDigits 10 power.natAbs)).map Int.ofNat = _
      rw [read, Option.map_some]
      exact congrArg some value
    | false =>
      have digits := digits_toDigits power.natAbs
      change exponent? ('e' :: Nat.toDigits 10 power.natAbs) = _
      generalize Nat.toDigits 10 power.natAbs = chars at read digits
      rw [exponent?, if_pos (Or.inl rfl)]
      · rw [read, Option.map_some]
        exact congrArg some value
      · rintro rest rfl
        simpa using digits '-' List.mem_cons_self
      · rintro rest rfl
        simpa using digits '+' List.mem_cons_self

/-! ## Layouts -/

theorem digits_append {left right : List Char} (all : ∀ char ∈ left, char.isDigit = true)
    (others : ∀ char ∈ right, char.isDigit = true) :
    ∀ char ∈ left ++ right, char.isDigit = true :=
  fun char mem => (List.mem_append.mp mem).elim (all char) (others char)

theorem digits_zeros (count : Nat) :
    ∀ char ∈ Binary64.zeros count, char.isDigit = true := by
  intro char mem
  rw [(List.mem_replicate.mp mem).2]
  rfl

section Layouts

variable {digits : List Char}

/-- Zeros behind the digits make up for a positive exponent. -/
theorem value_zeros_behind {exponent : Int} (whole : 0 ≤ exponent) :
    (Nat.ofDigitChars 10 (digits ++ Binary64.zeros exponent.toNat ++ ['0']) 0 : ℚ) *
      10 ^ (0 - (1 : Nat) : Int) = Nat.ofDigitChars 10 digits 0 * 10 ^ exponent := by
  obtain ⟨power, rfl⟩ := Int.eq_ofNat_of_zero_le whole
  rw [Nat.ofDigitChars_append, Nat.ofDigitChars_append, Int.toNat_natCast, Binary64.zeros,
    Nat.ofDigitChars_replicate_zero]
  change ((10 * (10 ^ power * _) + 0 : Nat) : ℚ) * _ = _
  push_cast
  norm_num
  ring

/-- Zeros in front of the digits do not change their value. -/
theorem ofDigitChars_zeros (count : Nat) :
    Nat.ofDigitChars 10 (['0'] ++ (Binary64.zeros count ++ digits)) 0 =
      Nat.ofDigitChars 10 digits 0 := by
  rw [Nat.ofDigitChars_append, Nat.ofDigitChars_append, Binary64.zeros,
    Nat.ofDigitChars_replicate_zero]
  rfl

variable (nonempty : digits ≠ []) (all : ∀ char ∈ digits, char.isDigit = true)

include nonempty all

/-- A number that is laid out reads as a decimal of the same value. -/
theorem finite?_layOut (layout : Binary64.Layout) (negative : Bool) (exponent : Int) :
    ∃ decimal : Decimal,
      finite? ((if negative then ['-'] else []) ++ Binary64.layOut layout digits exponent) =
        Binary64.ofDecimal? negative decimal.digits decimal.exponent ∧
      decimal.value = (Nat.ofDigitChars 10 digits 0 : ℚ) * 10 ^ exponent := by
  rw [Binary64.layOut]
  dsimp only
  by_cases whole : 0 ≤ exponent ∧ (digits.length : Int) + exponent ≤ layout.greatestPosition
  · rw [if_pos whole]
    have zeros := digits_append all (digits_zeros exponent.toNat)
    have read := finite?_point negative ['0'] [] (by simp [nonempty])
      (digits_append zeros (by simp)) (by simp) rfl
    exact ⟨⟨_, _⟩, read, value_zeros_behind whole.1⟩
  rw [if_neg whole]
  by_cases inside : 0 < (digits.length : Int) + exponent ∧
      (digits.length : Int) + exponent ≤ layout.greatestPosition
  · rw [if_pos inside]
    have cut := List.take_append_drop ((digits.length : Int) + exponent).toNat digits
    have some : digits.take ((digits.length : Int) + exponent).toNat ≠ [] := by
      simp [nonempty]
      omega
    have read := finite?_point negative (digits.drop ((digits.length : Int) + exponent).toNat) []
      some (by rw [cut]; exact all) (by simp) rfl
    rw [cut, List.append_nil] at read
    refine ⟨⟨_, _⟩, read, ?_⟩
    rw [Decimal.value, List.length_drop]
    congr 2
    dsimp only
    omega
  rw [if_neg inside]
  by_cases below : layout.leastPosition ≤ (digits.length : Int) + exponent ∧
      (digits.length : Int) + exponent ≤ 0
  · rw [if_pos below]
    generalize position : (-((digits.length : Int) + exponent)).toNat = count
    have zeros := digits_append (digits_zeros count) all
    have read := finite?_point negative (Binary64.zeros count ++ digits) []
      (List.cons_ne_nil '0' [])
      (digits_append (by simp) zeros) (by simp) rfl
    rw [ofDigitChars_zeros, List.append_nil] at read
    refine ⟨⟨_, _⟩, read, ?_⟩
    rw [Decimal.value, List.length_append, Binary64.zeros, List.length_replicate]
    congr 2
    dsimp only
    omega
  rw [if_neg below]
  generalize last : (digits.length : Int) + exponent - 1 = power
  have read := exponent?_power layout.plusSign power
  cases digits with
  | nil => exact absurd rfl nonempty
  | cons first rest =>
    cases rest with
    | nil =>
      have read := finite?_whole negative _ (List.cons_ne_nil first []) all (by simp) read
      refine ⟨⟨_, _⟩, read, ?_⟩
      rw [Decimal.value]
      congr 2
      rw [← last, List.length_singleton]
      dsimp only
      omega
    | cons second rest =>
      have read := finite?_point negative (second :: rest) _ (List.cons_ne_nil first []) all
        (by simp) read
      have more : ¬ (first :: second :: rest).length ≤ 1 := by simp
      refine ⟨⟨_, _⟩, Eq.trans ?_ read, ?_⟩
      · rw [if_neg more]
        simp
      · rw [Decimal.value]
        congr 2
        rw [← last]
        simp only [List.length_cons]
        omega

end Layouts

/-- The text of a canonical number is a number with a point or an exponent. -/
theorem finite?_render {number : Binary64} (canonical : number.IsCanonical)
    (layout : Binary64.Layout) : finite? (number.render layout).toList = some number := by
  rw [Binary64.render]
  dsimp only
  by_cases zero : number.significand = 0
  · rw [if_pos zero, String.toList_ofList]
    have read := finite?_point number.negative ['0'] [] (List.cons_ne_nil '0' []) (by simp)
      (by simp) rfl
    have least := canonical.normal.resolve_left (by omega)
    refine Eq.trans read ?_
    obtain ⟨negative, significand, exponent⟩ := number
    obtain rfl : significand = 0 := zero
    obtain rfl : exponent = Binary64.leastExponent := least
    rfl
  · rw [if_neg zero, String.toList_ofList]
    obtain ⟨decimal, read, value⟩ := finite?_layOut Nat.toDigits_ne_nil
      (digits_toDigits (Binary64.shortest number).digits) layout number.negative
      (Binary64.shortest number).exponent
    rw [read]
    apply Binary64.ofDecimal?_eq_some canonical zero
    rw [← Decimal.value, value, Nat.ofDigitChars_ten_toDigits]
    exact Binary64.shortest_covers canonical zero

/-! ## The characters of numbers -/

/-- The characters that the text of a number is made of. -/
def isNumberChar (char : Char) : Bool :=
  char.isDigit || char = '-' || char = '+' || char = '.' || char = 'e'

theorem isNumberChar_digit {char : Char} (digit : char.isDigit = true) :
    isNumberChar char = true := by
  simp [isNumberChar, digit]

/-- A text of such characters is no word. -/
theorem ne_of_isNumberChar {text word : String} {other : Char}
    (all : ∀ char ∈ text.toList, isNumberChar char = true) (mem : other ∈ word.toList)
    (foreign : isNumberChar other = false) : text ≠ word := by
  rintro rfl
  simp [all other mem] at foreign

theorem natural?_none {base : Nat} {digits : List Char} {mark : Char} (mem : mark ∈ digits)
    (foreign : digitValue? base mark = none) : natural? base digits = none := by
  have fold (value : Nat) : digits.foldlM (fun value char => do
      pure (value * base + (← digitValue? base char))) value = none := by
    induction digits generalizing value with
    | nil => simp at mem
    | cons char rest ih =>
      rw [List.foldlM_cons]
      rcases List.mem_cons.mp mem with rfl | mem
      · rw [foreign]
        rfl
      · cases digitValue? base char with
        | none => rfl
        | some digit => exact ih mem _
  rw [natural?]
  split
  · rfl
  · exact fold 0

theorem mem_of_mem_dropSign {chars : List Char} {char : Char} (mem : char ∈ dropSign chars) :
    char ∈ chars := by
  unfold dropSign at mem
  split at mem
  · exact List.mem_cons_of_mem _ mem
  · exact List.mem_cons_of_mem _ mem
  · exact mem

/-- No base is marked in the text of a number. -/
theorem integer?_eq {chars : List Char} (all : ∀ char ∈ chars, isNumberChar char = true) :
    integer? chars = (if hasLeadingZero chars then none else natural? 10 (dropSign chars)).map
      fun value : Nat => if chars.head? = some '-' then -(value : Int) else value := by
  have unmarked (char : Char) (mem : char ∈ dropSign chars) : isNumberChar char = true :=
    all char (mem_of_mem_dropSign mem)
  unfold integer?
  dsimp only
  split
  · next rest =>
      have unsigned : dropSign ('-' :: rest) = rest := rfl
      generalize hasLeadingZero ('-' :: rest) = leading
      rw [unsigned] at unmarked ⊢
      simp only [if_true]
      split
      · exact absurd (unmarked 'x' (by simp)) (by decide)
      · exact absurd (unmarked 'o' (by simp)) (by decide)
      · exact absurd (unmarked 'b' (by simp)) (by decide)
      · cases leading <;> cases natural? 10 rest <;> rfl
  · next rest =>
      have unsigned : dropSign ('+' :: rest) = rest := rfl
      generalize hasLeadingZero ('+' :: rest) = leading
      rw [unsigned] at unmarked ⊢
      simp only [Bool.false_eq_true, if_false]
      split
      · exact absurd (unmarked 'x' (by simp)) (by decide)
      · exact absurd (unmarked 'o' (by simp)) (by decide)
      · exact absurd (unmarked 'b' (by simp)) (by decide)
      · cases leading <;> cases natural? 10 rest <;> rfl
  · next minus plus =>
      have unsigned : dropSign chars = chars := by
        unfold dropSign
        split
        · exact (plus _ rfl).elim
        · exact (minus _ rfl).elim
        · rfl
      have positive : chars.head? ≠ some '-' := by
        cases chars with
        | nil => simp
        | cons first rest =>
          rintro start
          obtain rfl := Option.some.inj start
          exact minus rest rfl
      generalize hasLeadingZero chars = leading
      rw [unsigned] at unmarked ⊢
      simp only [positive, Bool.false_eq_true, if_false]
      clear minus plus positive unsigned all
      split
      · exact absurd (unmarked 'x' (by simp)) (by decide)
      · exact absurd (unmarked 'o' (by simp)) (by decide)
      · exact absurd (unmarked 'b' (by simp)) (by decide)
      · cases leading <;> cases natural? 10 chars <;> rfl

/-- A text that stands for a number starts with a digit, perhaps behind a minus sign. -/
def IsNumberText (chars : List Char) : Prop :=
  ∃ (negative : Bool) (first : Char) (rest : List Char),
    chars = (if negative then ['-'] else []) ++ first :: rest ∧ first.isDigit = true ∧
      ∀ char ∈ rest, isNumberChar char = true

theorem IsNumberText.all {chars : List Char} (text : IsNumberText chars) :
    ∀ char ∈ chars, isNumberChar char = true := by
  obtain ⟨negative, first, rest, rfl, digit, others⟩ := text
  intro char mem
  rcases List.mem_append.mp mem with mem | mem
  · cases negative with
    | true =>
      obtain rfl := List.mem_singleton.mp mem
      rfl
    | false => simp at mem
  · rcases List.mem_cons.mp mem with rfl | mem
    · exact isNumberChar_digit digit
    · exact others char mem

theorem numberChars_digits {digits : List Char} (all : ∀ char ∈ digits, char.isDigit = true) :
    ∀ char ∈ digits, isNumberChar char = true :=
  fun char mem => isNumberChar_digit (all char mem)

section Sign

variable (negative : Bool) {first : Char} {rest : List Char} (digit : first.isDigit = true)

include digit

theorem dropSign_digit :
    dropSign ((if negative then ['-'] else []) ++ first :: rest) = first :: rest := by
  cases negative with
  | true => rfl
  | false =>
    change dropSign (first :: rest) = first :: rest
    unfold dropSign
    split
    · next start =>
        obtain ⟨rfl, -⟩ := List.cons.inj start
        simp at digit
    · next start =>
        obtain ⟨rfl, -⟩ := List.cons.inj start
        simp at digit
    · rfl

theorem head_minus :
    ((if negative then ['-'] else []) ++ first :: rest).head? = some '-' ↔ negative = true := by
  cases negative with
  | true => simp
  | false =>
    have other : first ≠ '-' := by
      rintro rfl
      simp at digit
    simp [other]

end Sign

/-! ## Integers -/

theorem head_toDigits {natural : Nat} (nonzero : natural ≠ 0) :
    (Nat.toDigits 10 natural).head? ≠ some '0' := by
  induction natural using Nat.strongRecOn with
  | ind natural ih =>
    rw [Nat.toDigits_eq_if (by decide)]
    split
    · next small =>
        interval_cases natural <;> simp_all
    · next large =>
        have shorter := ih (natural / 10) (by omega) (by omega)
        rwa [List.head?_append_of_ne_nil _ Nat.toDigits_ne_nil]

theorem toDigits_cons (natural : Nat) : ∃ first rest, Nat.toDigits 10 natural = first :: rest ∧
    first.isDigit = true ∧ ∀ char ∈ rest, isNumberChar char = true := by
  obtain ⟨first, rest, digits⟩ := List.exists_cons_of_ne_nil (Nat.toDigits_ne_nil (b := 10)
    (n := natural))
  have all := digits_toDigits natural
  rw [digits] at all
  exact ⟨first, rest, digits, all first List.mem_cons_self,
    numberChars_digits fun char mem => all char (List.mem_cons_of_mem _ mem)⟩

theorem isNumberText_toDigits (negative : Bool) (natural : Nat) :
    IsNumberText ((if negative then ['-'] else []) ++ Nat.toDigits 10 natural) := by
  obtain ⟨first, rest, digits, text⟩ := toDigits_cons natural
  exact ⟨negative, first, rest, by rw [digits], text⟩

/-- The digits of a number have no superfluous zero in front. -/
theorem hasLeadingZero_toDigits (negative : Bool) (natural : Nat) :
    hasLeadingZero ((if negative then ['-'] else []) ++ Nat.toDigits 10 natural) = false := by
  obtain ⟨first, rest, digits, digit, -⟩ := toDigits_cons natural
  rw [hasLeadingZero, digits, dropSign_digit negative digit]
  by_cases zero : natural = 0
  · rw [zero] at digits
    rw [← digits]
    rfl
  · have start := head_toDigits zero
    rw [digits] at start
    simp_all

theorem integer?_toDigits (negative : Bool) (natural : Nat) :
    integer? ((if negative then ['-'] else []) ++ Nat.toDigits 10 natural) =
      some (if negative then -(natural : Int) else natural) := by
  rw [integer?_eq (isNumberText_toDigits negative natural).all, hasLeadingZero_toDigits]
  have read := natural?_toDigits natural
  obtain ⟨first, rest, digits, digit, -⟩ := toDigits_cons natural
  rw [digits] at read ⊢
  rw [dropSign_digit negative digit, read]
  simp only [head_minus negative digit, Bool.false_eq_true, if_false, Option.map_some]

theorem toList_toString (value : Int) :
    (toString value).toList =
      (if decide (value < 0) then ['-'] else []) ++ Nat.toDigits 10 value.natAbs := by
  rw [Int.toString_eq_repr, Int.repr_eq_if]
  by_cases negative : value < 0
  · rw [if_neg (not_le.mpr negative), String.toList_append, Nat.toList_repr]
    simp only [negative, decide_true, if_true]
    congr 2
    omega
  · rw [if_pos (not_lt.mp negative), Nat.toList_repr]
    simp only [negative, decide_false, Bool.false_eq_true, if_false, List.nil_append]
    congr 1
    omega

/-! ## Numbers with a point or an exponent as texts -/

/-- What is laid out starts with a digit, and behind it there is a point or an exponent. -/
theorem layOut_text (layout : Binary64.Layout) (exponent : Int) {digits : List Char}
    (nonempty : digits ≠ []) (all : ∀ char ∈ digits, char.isDigit = true) :
    ∃ first rest, Binary64.layOut layout digits exponent = first :: rest ∧
      first.isDigit = true ∧ (∀ char ∈ rest, isNumberChar char = true) ∧
      ∃ mark ∈ rest, digitValue? 10 mark = none ∧ mark.isDigit = false := by
  obtain ⟨first, others, rfl⟩ := List.exists_cons_of_ne_nil nonempty
  have start := all first List.mem_cons_self
  have behind : ∀ char ∈ others, isNumberChar char = true :=
    numberChars_digits fun char mem => all char (List.mem_cons_of_mem _ mem)
  have zeros (count : Nat) := numberChars_digits (digits_zeros count)
  rw [Binary64.layOut]
  dsimp only
  split
  · refine ⟨first, others ++ Binary64.zeros exponent.toNat ++ ['.', '0'], rfl, start, ?_, '.',
      by simp, rfl, rfl⟩
    simp only [List.forall_mem_append]
    exact ⟨⟨behind, zeros _⟩, by simp [isNumberChar]⟩
  · split
    · next inside =>
      obtain ⟨cut, count⟩ : ∃ cut, ((List.length (first :: others) : Int) + exponent).toNat =
          cut + 1 := Nat.exists_eq_add_one_of_ne_zero (by omega)
      rw [count]
      refine ⟨first, others.take cut ++ '.' :: others.drop cut, rfl, start, ?_, '.', by simp, rfl, rfl⟩
      rw [List.forall_mem_append, List.forall_mem_cons]
      exact ⟨fun char mem => behind char (List.mem_of_mem_take mem), rfl,
        fun char mem => behind char (List.mem_of_mem_drop mem)⟩
    · split
      · refine ⟨'0', _, rfl, rfl, ?_, '.', by simp, rfl, rfl⟩
        simp only [List.forall_mem_append, List.forall_mem_cons]
        exact ⟨rfl, zeros _, isNumberChar_digit start, behind⟩
      · have power := numberChars_digits
          (digits_toDigits ((List.length (first :: others) : Int) + exponent - 1).natAbs)
        simp only [List.take_succ_cons, List.take_zero, List.cons_append, List.nil_append,
          List.drop_succ_cons, List.drop_zero]
        refine ⟨first, _, rfl, start, ?_, 'e', by simp, rfl, rfl⟩
        simp only [List.forall_mem_append, List.forall_mem_cons]
        refine ⟨⟨?_, rfl, ?_⟩, power⟩
        · split
          · simp
          · exact List.forall_mem_cons.mpr ⟨rfl, behind⟩
        · split
          · simp [isNumberChar]
          · split
            · simp [isNumberChar]
            · simp

/-- The text of a binary64 number has a point or an exponent. -/
theorem render_text (layout : Binary64.Layout) (number : Binary64) :
    IsNumberText (number.render layout).toList ∧
      ∃ mark ∈ dropSign (number.render layout).toList,
        digitValue? 10 mark = none ∧ mark.isDigit = false := by
  obtain ⟨first, rest, text, digit, all, mark, mem, foreign⟩ :
      ∃ first rest, (number.render layout).toList =
          (if number.negative then ['-'] else []) ++ first :: rest ∧
        first.isDigit = true ∧ (∀ char ∈ rest, isNumberChar char = true) ∧
        ∃ mark ∈ rest, digitValue? 10 mark = none ∧ mark.isDigit = false := by
    rw [Binary64.render]
    dsimp only
    split
    · rw [String.toList_ofList]
      exact ⟨'0', ['.', '0'], rfl, rfl, by simp [isNumberChar], '.', by simp, rfl, rfl⟩
    · obtain ⟨first, rest, text, found⟩ := layOut_text layout (Binary64.shortest number).exponent
        Nat.toDigits_ne_nil (digits_toDigits (Binary64.shortest number).digits)
      rw [String.toList_ofList, text]
      exact ⟨first, rest, rfl, found⟩
  refine ⟨⟨number.negative, first, rest, text, digit, all⟩, mark, ?_, foreign⟩
  rw [text, dropSign_digit _ digit]
  exact List.mem_cons_of_mem _ mem

/-! ## Reading numbers back -/

section Words

variable {text : String} (number : IsNumberText text.toList)

include number

/-- A text that stands for a number is no word. -/
theorem IsNumberText.ne (word : String)
    (foreign : word.toList.any (fun char => !isNumberChar char) = true) : text ≠ word := by
  obtain ⟨char, mem, other⟩ := List.any_eq_true.mp foreign
  exact ne_of_isNumberChar number.all mem (by simpa using other)

theorem IsNumberText.ne_empty : text ≠ "" := by
  rintro rfl
  obtain ⟨negative, first, rest, empty, -⟩ := number
  cases negative <;> simp at empty

theorem float?_number : float? text = (finite? text.toList).map .binary64 := by
  have noWord (words : List String)
      (foreign : (words.all fun word => word.toList.any fun char => !isNumberChar char) = true) :
      words.contains text = false := by
    rw [Bool.eq_false_iff, ne_eq, List.contains_iff_mem]
    exact fun mem => number.ne text (List.all_eq_true.mp foreign text mem) rfl
  unfold float?
  rw [noWord _ (by decide), noWord _ (by decide), noWord _ (by decide)]
  rfl

/-- Only the rules for numbers concern a text that stands for one. -/
theorem ofPlain_number : ofPlain text = ((integer? text.toList).bind ofInteger?).getD
    (if hasLeadingZero text.toList then .text text
      else ((finite? text.toList).map .binary64).getD (.text text)) := by
  have null : isNull text = false := by
    simp only [isNull, Bool.or_eq_false_iff, decide_eq_false_iff_not]
    exact ⟨⟨⟨number.ne _ (by decide), number.ne _ (by decide)⟩, number.ne _ (by decide)⟩,
      number.ne _ (by decide)⟩
  have bool : bool? text = none := by
    simp [bool?, number.ne "true" (by decide), number.ne "True" (by decide),
      number.ne "TRUE" (by decide), number.ne "false" (by decide),
      number.ne "False" (by decide), number.ne "FALSE" (by decide)]
  rw [ofPlain, null, bool, float?_number number]
  simp only [number.ne_empty, decide_false, Bool.or_false, Bool.false_eq_true, if_false]
  cases (integer? text.toList).bind ofInteger? with
  | none => rfl
  | some scalar => rfl

end Words

theorem isNumberText_numberText (number : Number) :
    IsNumberText (Json.numberText number).toList := by
  cases number with
  | integer value =>
    rw [Json.numberText, toList_toString]
    exact isNumberText_toDigits _ _
  | binary64 value => exact (render_text Json.layout value).1

theorem ofPlain_integer {value : Int} (low : -2 ^ 63 ≤ value) (high : value < 2 ^ 64) :
    ofPlain (toString value) = .integer value := by
  have read : integer? (toString value).toList = some value := by
    rw [toList_toString, integer?_toDigits]
    split
    · next negative =>
        have := of_decide_eq_true negative
        congr 1
        omega
    · next positive =>
        have : ¬ value < 0 := by simpa using positive
        congr 1
        omega
  have number : IsNumberText (toString value).toList := isNumberText_numberText (.integer value)
  rw [ofPlain_number number, read, Option.bind_some, ofInteger?, if_pos ⟨low, high⟩]
  rfl

theorem ofPlain_binary64 {value : Binary64} (canonical : value.IsCanonical) :
    ofPlain (value.render Json.layout) = .binary64 value := by
  obtain ⟨number, mark, mem, foreign, other⟩ := render_text Json.layout value
  have noInteger : integer? (value.render Json.layout).toList = none := by
    rw [integer?_eq number.all, natural?_none mem foreign]
    simp
  have noZero : hasLeadingZero (value.render Json.layout).toList = false := by
    have some : (dropSign (value.render Json.layout).toList).all Char.isDigit = false := by
      rw [List.all_eq_false]
      exact ⟨mark, mem, by simp [other]⟩
    rw [hasLeadingZero, some, Bool.and_false]
  rw [ofPlain_number number, noInteger, noZero, finite?_render canonical]
  rfl

end Yaml.Scalar

/-! ## All numbers -/

/-- The numbers that can be read: integers of 64 bits and canonical binary64 numbers. -/
def Number.IsProper : Number → Prop
  | .integer value => -2 ^ 63 ≤ value ∧ value < 2 ^ 64
  | .binary64 value => value.IsCanonical

/-- What a number is as a scalar. -/
def Yaml.Scalar.ofNumber : Number → Scalar
  | .integer value => .integer value
  | .binary64 value => .binary64 value

/-- The text of a number stands for the number. -/
theorem Yaml.Scalar.ofPlain_numberText {number : Number} (proper : number.IsProper) :
    ofPlain (Json.numberText number) = ofNumber number := by
  cases number with
  | integer value => exact ofPlain_integer proper.1 proper.2
  | binary64 value => exact ofPlain_binary64 proper

end SchemaLift
