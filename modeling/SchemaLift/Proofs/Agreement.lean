import SchemaLift.Proofs.Document.Reader

/-!
# Results that agree

Two results agree when both are faults or both are values, and these are related (`Agree`). Which
fault it is does not matter. Runs that go step by step agree when every step does (`Agree.bind`),
and so do runs over lists that are related element by element (`Agree.mapM`) and over entries that
match in any order (`Agree.readEntries`).

The last is not an induction on the entries, which stand in different places: it is enough that each
entry on one side can be read if one that matches it can.
-/

namespace SchemaLift

variable {ε φ α β γ δ : Type}

/-- Two faults, or two values that are related. -/
inductive Agree (related : α → β → Prop) : Except ε α → Except φ β → Prop
  | ok {value : α} {other : β} (fits : related value other) : Agree related (.ok value) (.ok other)
  | error (fault : ε) (other : φ) : Agree related (.error fault) (.error other)

namespace Agree

variable {related : α → β → Prop} {first : Except ε α} {second : Except φ β}

theorem refl {related : α → α → Prop} (first : Except ε α)
    (own : ∀ value, related value value) : Agree related first first := by
  cases first with
  | ok value => exact Agree.ok (own value)
  | error fault => exact Agree.error fault fault

theorem mono {wider : α → β → Prop} (agree : Agree related first second)
    (widen : ∀ value other, related value other → wider value other) :
    Agree wider first second := by
  cases agree with
  | ok fits => exact Agree.ok (widen _ _ fits)
  | error fault other => exact Agree.error fault other

theorem bind {wider : γ → δ → Prop} (agree : Agree related first second)
    {next : α → Except ε γ} {later : β → Except φ δ}
    (step : ∀ value other, related value other → Agree wider (next value) (later other)) :
    Agree wider (first >>= next) (second >>= later) := by
  cases agree with
  | ok fits => exact step _ _ fits
  | error fault other => exact Agree.error fault other

/-- What is built of related values. -/
theorem build {wider : γ → δ → Prop} (agree : Agree related first second) {make : α → γ}
    {other : β → δ} (step : ∀ left right, related left right → wider (make left) (other right)) :
    Agree wider (first >>= fun value => pure (make value))
      (second >>= fun value => pure (other value)) :=
  agree.bind fun left right fits => Agree.ok (step left right fits)

theorem map {wider : γ → δ → Prop} (agree : Agree related first second) {make : α → γ}
    {other : β → δ} (step : ∀ left right, related left right → wider (make left) (other right)) :
    Agree wider (first.map make) (second.map other) := by
  cases agree with
  | ok fits => exact Agree.ok (step _ _ fits)
  | error => exact Agree.error _ _

theorem mapError {ψ χ : Type} (agree : Agree related first second) (change : ε → ψ)
    (other : φ → χ) : Agree related (first.mapError change) (second.mapError other) := by
  cases agree with
  | ok fits => exact Agree.ok fits
  | error => exact Agree.error _ _

theorem exists_right (agree : Agree related first second) {value : α} (read : first = .ok value) :
    ∃ other, second = .ok other ∧ related value other := by
  cases agree with
  | ok fits =>
      cases read
      exact ⟨_, rfl, fits⟩
  | error => cases read

theorem exists_left (agree : Agree related first second) {other : β} (read : second = .ok other) :
    ∃ value, first = .ok value ∧ related value other := by
  cases agree with
  | ok fits =>
      cases read
      exact ⟨_, rfl, fits⟩
  | error => cases read

/-- Results agree if one is a value when the other is, and related to it then. -/
theorem of_exists_iff (readable : (∃ value, first = .ok value) ↔ ∃ other, second = .ok other)
    (fits : ∀ value other, first = .ok value → second = .ok other → related value other) :
    Agree related first second := by
  cases first with
  | ok value =>
      rcases readable.mp ⟨value, rfl⟩ with ⟨other, rfl⟩
      exact Agree.ok (fits value other rfl rfl)
  | error fault =>
      cases second with
      | ok other =>
          rcases readable.mpr ⟨other, rfl⟩ with ⟨_, impossible⟩
          cases impossible
      | error other => exact Agree.error fault other

/-! ## Lists and entries -/

theorem mapM {wider : γ → δ → Prop} {values : List α} {others : List β}
    (all : List.Forall₂ related values others) {read : α → Except ε γ} {readOther : β → Except φ δ}
    (step : ∀ value ∈ values, ∀ other, related value other →
      Agree wider (read value) (readOther other)) :
    Agree (List.Forall₂ wider) (values.mapM read) (others.mapM readOther) := by
  induction all with
  | nil => exact Agree.ok List.Forall₂.nil
  | cons fits _ ih =>
      rw [List.mapM_cons, List.mapM_cons]
      apply (step _ List.mem_cons_self _ fits).bind
      intro own other alike
      apply (ih fun value present => step value (List.mem_cons_of_mem _ present)).build
      exact fun later others rest => List.Forall₂.cons alike rest

section Entries

variable {related : Json → Json → Prop} {wider : α → β → Prop} {left right : Members Json}
  {read : String → Json → Except Fault α} {readOther : String → Json → Except Fault β}

theorem exists_readEntries_iff {entries : Members Json} :
    (∃ members, SchemaLift.readEntries read entries = .ok members) ↔
      ∀ key value, (key, value) ∈ entries → ∃ entry, read key value = .ok entry := by
  simp only [readEntries_eq_ok_iff]
  constructor
  · rintro ⟨members, all⟩ key value present
    rcases all.exists_right present with ⟨entry, _, own⟩
    exact ⟨entry, own⟩
  · exact Members.Related.exists_of_forall

theorem readEntries (matching : Members.Matches related left right)
    (distinct : Members.Distinct left)
    (step : ∀ key value other, (key, value) ∈ left → related value other →
      Agree wider (read key value) (readOther key other)) :
    Agree (Members.Matches wider) (SchemaLift.readEntries read left)
      (SchemaLift.readEntries readOther right) := by
  have back : Members.Matches (fun other value => related value other) right left :=
    matching.symm distinct fun _ _ _ _ fits => fits
  apply of_exists_iff
  · rw [exists_readEntries_iff, exists_readEntries_iff]
    constructor
    · intro each key other present
      rcases back.2 key other present with ⟨value, found, fits⟩
      have inside := Members.mem_of_get?_eq_some found
      rcases each key value inside with ⟨entry, own⟩
      rcases (step key value other inside fits).exists_right own with ⟨result, there, _⟩
      exact ⟨result, there⟩
    · intro each key value inside
      rcases matching.2 key value inside with ⟨other, found, fits⟩
      rcases each key other (Members.mem_of_get?_eq_some found) with ⟨result, own⟩
      rcases (step key value other inside fits).exists_left own with ⟨entry, there, _⟩
      exact ⟨entry, there⟩
  · intro members others own there
    have entries := readEntries_eq_ok_iff.mp own
    have results := readEntries_eq_ok_iff.mp there
    constructor
    · rw [← entries.length_eq, ← results.length_eq, matching.1]
    · intro key entry present
      rcases entries.exists_left present with ⟨value, inside, read⟩
      rcases matching.2 key value inside with ⟨other, found, fits⟩
      rcases results.get?_eq_some found with ⟨result, lookup, readOther⟩
      rcases (step key value other inside fits).exists_right read with ⟨same, again, holds⟩
      cases readOther.symm.trans again
      exact ⟨result, lookup, holds⟩

end Entries

end Agree

end SchemaLift
