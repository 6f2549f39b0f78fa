import Mathlib.Data.List.Forall2
import Mathlib.Data.Option.Defs

/-!
# Lists and optional values, related element by element

Laws of `List.Forall₂` and `Option.Rel`. In some of them the elements of the first list are known to
be elements of it. Inductions over trees need that: what holds of the children is known only of the
children.
-/

namespace SchemaLift

variable {α β γ : Type}

theorem forall₂_imp_of_mem {related : α → β → Prop} {wider : α → β → Prop}
    {left : List α} {right : List β} (all : List.Forall₂ related left right)
    (widen : ∀ value ∈ left, ∀ other, related value other → wider value other) :
    List.Forall₂ wider left right := by
  induction all with
  | nil => exact List.Forall₂.nil
  | cons fits _ ih =>
      apply List.Forall₂.cons (widen _ List.mem_cons_self _ fits)
      exact ih fun value present => widen value (List.mem_cons_of_mem _ present)

theorem forall₂_flip_of_mem {related : α → β → Prop} {flipped : β → α → Prop}
    {left : List α} {right : List β} (all : List.Forall₂ related left right)
    (flip : ∀ value ∈ left, ∀ other, related value other → flipped other value) :
    List.Forall₂ flipped right left :=
  List.Forall₂.flip (forall₂_imp_of_mem all flip)

theorem forall₂_trans_of_mem {related : α → β → Prop} {later : β → γ → Prop}
    {whole : α → γ → Prop} {left : List α} {middle : List β} {right : List γ}
    (first : List.Forall₂ related left middle) (second : List.Forall₂ later middle right)
    (compose : ∀ value ∈ left, ∀ between other, related value between → later between other →
      whole value other) :
    List.Forall₂ whole left right := by
  induction first generalizing right with
  | nil =>
      cases second
      exact List.Forall₂.nil
  | cons fits _ ih =>
      cases second with
      | cons lastFits rest =>
          apply List.Forall₂.cons (compose _ List.mem_cons_self _ _ fits lastFits)
          exact ih rest fun value present => compose value (List.mem_cons_of_mem _ present)

theorem exists_of_forall₂ {related : α → β → Prop} {left : List α} {right : List β}
    (all : List.Forall₂ related left right) {other : β} (present : other ∈ right) :
    ∃ value ∈ left, related value other := by
  induction all with
  | nil => cases present
  | cons fits _ ih =>
      rcases List.mem_cons.mp present with rfl | later
      · exact ⟨_, List.mem_cons_self, fits⟩
      · rcases ih later with ⟨value, inside, holds⟩
        exact ⟨value, List.mem_cons_of_mem _ inside, holds⟩

theorem eq_of_forall₂ {related : α → α → Prop} {left right : List α}
    (all : List.Forall₂ related left right)
    (equal : ∀ value other, related value other → other = value) : right = left := by
  induction all with
  | nil => rfl
  | cons fits _ ih => rw [equal _ _ fits, ih]

theorem isEmpty_eq_of_length_eq {left : List α} {right : List β}
    (count : left.length = right.length) : left.isEmpty = right.isEmpty := by
  rw [Bool.eq_iff_iff, List.isEmpty_iff_length_eq_zero, List.isEmpty_iff_length_eq_zero, count]

/-! ## Optional values -/

theorem optionRel_self {related : α → α → Prop} {option : Option α}
    (own : ∀ value, option = some value → related value value) :
    Option.Rel related option option := by
  cases option with
  | none => exact Option.Rel.none
  | some value => exact Option.Rel.some (own value rfl)

theorem optionRel_mono {related wider : α → β → Prop} {left : Option α} {right : Option β}
    (all : Option.Rel related left right)
    (widen : ∀ value other, related value other → wider value other) :
    Option.Rel wider left right := by
  cases all with
  | some fits => exact Option.Rel.some (widen _ _ fits)
  | none => exact Option.Rel.none

theorem optionRel_flip {related : α → β → Prop} {flipped : β → α → Prop} {left : Option α}
    {right : Option β} (all : Option.Rel related left right)
    (turn : ∀ value other, related value other → flipped other value) :
    Option.Rel flipped right left := by
  cases all with
  | some fits => exact Option.Rel.some (turn _ _ fits)
  | none => exact Option.Rel.none

theorem optionRel_eq {related : α → α → Prop} {left right : Option α}
    (all : Option.Rel related left right)
    (equal : ∀ value other, related value other → other = value) : right = left := by
  cases all with
  | some fits => rw [equal _ _ fits]
  | none => rfl

theorem exists_of_optionRel {related : α → β → Prop} {left : Option α} {right : Option β}
    (all : Option.Rel related left right) {other : β} (found : right = some other) :
    ∃ value, left = some value ∧ related value other := by
  cases all with
  | some fits =>
      cases found
      exact ⟨_, rfl, fits⟩
  | none => cases found

end SchemaLift
