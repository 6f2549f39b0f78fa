import SchemaLift.Proofs.Members.Lookup

/-!
# Members related one by one

Two lists of members with the same keys in the same order, and related values. This is what a pass
over the members makes of them, where matching members may stand in any order.
-/

namespace SchemaLift.Members

variable {κ α β γ : Type}

/-- The same keys in the same order, with related values. -/
inductive Related (related : κ → α → β → Prop) : List (κ × α) → List (κ × β) → Prop
  | nil : Related related [] []
  | cons {key : κ} {value : α} {other : β} {left : List (κ × α)} {right : List (κ × β)}
      (fits : related key value other) (rest : Related related left right) :
      Related related ((key, value) :: left) ((key, other) :: right)

namespace Related

variable {related : κ → α → β → Prop} {left : List (κ × α)} {right : List (κ × β)}

theorem append {back : List (κ × α)} {last : List (κ × β)} (fronts : Related related left right)
    (backs : Related related back last) : Related related (left ++ back) (right ++ last) := by
  induction fronts with
  | nil => exact backs
  | cons fits _ ih => exact Related.cons fits ih

theorem refl {related : κ → α → α → Prop} {members : List (κ × α)}
    (own : ∀ key value, (key, value) ∈ members → related key value value) :
    Related related members members := by
  induction members with
  | nil => exact Related.nil
  | cons member rest ih =>
      rcases member with ⟨key, value⟩
      refine Related.cons (own key value List.mem_cons_self) (ih fun name other present => ?_)
      exact own name other (List.mem_cons_of_mem _ present)

theorem mono {wider : κ → α → β → Prop} (all : Related related left right)
    (widen : ∀ key value other, (key, value) ∈ left → related key value other →
      wider key value other) : Related wider left right := by
  induction all with
  | nil => exact Related.nil
  | cons fits _ ih =>
      apply Related.cons (widen _ _ _ List.mem_cons_self fits)
      refine ih fun key value other present => ?_
      exact widen key value other (List.mem_cons_of_mem _ present)

theorem flip {flipped : κ → β → α → Prop} (all : Related related left right)
    (turn : ∀ key value other, (key, value) ∈ left → related key value other →
      flipped key other value) : Related flipped right left := by
  induction all with
  | nil => exact Related.nil
  | cons fits _ ih =>
      apply Related.cons (turn _ _ _ List.mem_cons_self fits)
      refine ih fun key value other present => ?_
      exact turn key value other (List.mem_cons_of_mem _ present)

theorem keys_eq (all : Related related left right) : keys right = keys left := by
  induction all with
  | nil => rfl
  | cons _ _ ih => rw [keys_cons, keys_cons, ih]

theorem length_eq (all : Related related left right) : left.length = right.length := by
  have same := congrArg List.length all.keys_eq
  simpa [keys] using same.symm

theorem distinct (all : Related related left right) (distinct : Distinct left) :
    Distinct right := by
  rw [Distinct, all.keys_eq]
  exact distinct

/-- Where every value is related to another, all of them are at once. -/
theorem exists_of_forall
    (each : ∀ key value, (key, value) ∈ left → ∃ other, related key value other) :
    ∃ right, Related related left right := by
  induction left with
  | nil => exact ⟨[], Related.nil⟩
  | cons member rest ih =>
      rcases member with ⟨key, value⟩
      rcases each key value List.mem_cons_self with ⟨other, fits⟩
      rcases ih fun name inner present => each name inner (List.mem_cons_of_mem _ present) with
        ⟨right, all⟩
      exact ⟨(key, other) :: right, Related.cons fits all⟩

/-- Values that are related only to themselves leave the members as they are. -/
theorem eq {related : κ → α → α → Prop} {left right : List (κ × α)}
    (all : Related related left right)
    (same : ∀ key value other, (key, value) ∈ left → related key value other → other = value) :
    right = left := by
  induction all with
  | nil => rfl
  | @cons key value other _ _ fits _ ih =>
      rw [same key value other List.mem_cons_self fits]
      rw [ih fun key value other present => same key value other (List.mem_cons_of_mem _ present)]

/-- Every entry on the left stands beside one on the right. -/
theorem exists_right (all : Related related left right) {key : κ} {value : α}
    (present : (key, value) ∈ left) :
    ∃ other, (key, other) ∈ right ∧ related key value other := by
  induction all with
  | nil => simp at present
  | cons fits _ ih =>
      rcases List.mem_cons.mp present with here | later
      · cases here
        exact ⟨_, List.mem_cons_self, fits⟩
      · rcases ih later with ⟨other, inside, related⟩
        exact ⟨other, List.mem_cons_of_mem _ inside, related⟩

/-- Every entry on the right stands beside one on the left. -/
theorem exists_left (all : Related related left right) {key : κ} {other : β}
    (present : (key, other) ∈ right) :
    ∃ value, (key, value) ∈ left ∧ related key value other := by
  have turned : Related (fun key other value => related key value other) right left :=
    all.flip fun _ _ _ _ fits => fits
  exact turned.exists_right present

/-- Lookups on both sides find related values. -/
theorem get?_eq_some [DecidableEq κ] (all : Related related left right) {key : κ} {value : α}
    (found : get? key left = some value) :
    ∃ other, get? key right = some other ∧ related key value other := by
  induction all with
  | nil => simp at found
  | @cons name first second _ _ fits _ ih =>
      rw [get?_cons] at found ⊢
      split at found
      · next same =>
          cases found
          subst same
          exact ⟨second, by simp, fits⟩
      · next differs =>
          rw [if_neg differs]
          exact ih found

theorem exists_get?_left [DecidableEq κ] (all : Related related left right) {key : κ} {other : β}
    (found : get? key right = some other) :
    ∃ value, get? key left = some value ∧ related key value other := by
  induction all with
  | nil => simp at found
  | @cons name first second _ _ fits _ ih =>
      rw [get?_cons] at found ⊢
      split at found
      · next same =>
          cases found
          subst same
          exact ⟨first, by simp, fits⟩
      · next differs =>
          rw [if_neg differs]
          exact ih found

/-- A related value may be set on the right. -/
theorem set {related : String → α → β → Prop} {left : Members α} {right : Members β}
    (all : Related related left right) {key : String} {value : α} {other : β}
    (found : get? key left = some value) (fits : related key value other) :
    Related related left (Members.set key other right) := by
  induction all with
  | nil => simp at found
  | @cons name first second _ _ here later ih =>
      rw [get?_cons] at found
      rw [Members.set]
      split at found
      · next same =>
          cases found
          subst same
          rw [if_pos rfl]
          exact Related.cons fits later
      · next differs =>
          rw [if_neg differs]
          exact Related.cons here (ih found)

end Related

theorem related_mapValues_iff {δ : Type} {related : String → δ → β → Prop} {write : α → δ}
    {left : Members α} {right : Members β} :
    Related related (mapValues write left) right ↔
      Related (fun key value other => related key (write value) other) left right := by
  constructor
  · intro all
    induction left generalizing right with
    | nil =>
        cases all
        exact Related.nil
    | cons member rest ih =>
        cases all with
        | cons fits later => exact Related.cons fits (ih later)
  · intro all
    induction all with
    | nil => exact Related.nil
    | cons fits _ ih => exact Related.cons fits ih

end SchemaLift.Members
