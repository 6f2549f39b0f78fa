import SchemaLift.Proofs.Members.Lookup

/-!
# Members in key order

Members that are set with `Members.setSorted` alone are in the order of their keys
(`Members.inKeyOrder_sorted`), and a new key is put between the smaller and the greater ones.
-/

namespace SchemaLift.Members

variable {α : Type} {members : Members α} {key : String}

/-- The keys increase. -/
def InKeyOrder (members : Members α) : Prop :=
  members.Pairwise fun left right => left.1 < right.1

theorem lt_of_ne_of_not_lt {left right : String} (differs : left ≠ right)
    (other : ¬right < left) : left < right := by
  by_contra third
  exact differs (String.le_antisymm (String.not_lt.mp other) (String.not_lt.mp third))

/-- A new key is set between the smaller keys and the greater ones. -/
theorem InKeyOrder.exists_setSorted (ordered : InKeyOrder members) (absent : key ∉ keys members)
    (value : α) :
    ∃ front back, members = front ++ back ∧
      setSorted key value members = front ++ (key, value) :: back ∧
      (∀ entry ∈ front, entry.1 < key) ∧ ∀ entry ∈ back, key < entry.1 := by
  induction members with
  | nil => exact ⟨[], [], rfl, rfl, nofun, nofun⟩
  | cons entry rest ih =>
      obtain ⟨name, old⟩ := entry
      obtain ⟨smallest, others⟩ := List.pairwise_cons.mp ordered
      obtain ⟨differs, absent⟩ := List.ne_and_not_mem_of_not_mem_cons absent
      rw [setSorted, if_neg (Ne.symm differs)]
      by_cases before : key < name
      · refine ⟨[], (name, old) :: rest, rfl, if_pos before, nofun, ?_⟩
        refine List.forall_mem_cons.mpr ⟨before, fun entry inside => ?_⟩
        exact String.lt_trans before (smallest entry inside)
      · obtain ⟨front, back, split, set, below, above⟩ := ih others absent
        refine ⟨(name, old) :: front, back, by rw [split, List.cons_append], ?_, ?_, above⟩
        · rw [if_neg before, set, List.cons_append]
        · exact List.forall_mem_cons.mpr
            ⟨lt_of_ne_of_not_lt (Ne.symm differs) before, below⟩

theorem mem_setSorted {value : α} {entry : String × α} (inside : entry ∈ setSorted key value members) :
    entry = (key, value) ∨ entry ∈ members := by
  induction members with
  | nil => exact .inl (List.mem_singleton.mp inside)
  | cons first rest ih =>
      rw [setSorted] at inside
      split at inside
      · next same =>
          obtain rfl := same
          exact (List.mem_cons.mp inside).imp_right (List.mem_cons_of_mem _)
      · split at inside
        · exact List.mem_cons.mp inside
        · rcases List.mem_cons.mp inside with rfl | inside
          · exact .inr List.mem_cons_self
          · exact (ih inside).imp_right (List.mem_cons_of_mem _)

theorem InKeyOrder.setSorted (ordered : InKeyOrder members) (key : String) (value : α) :
    InKeyOrder (setSorted key value members) := by
  induction members with
  | nil => exact List.pairwise_singleton _ _
  | cons entry rest ih =>
      obtain ⟨name, old⟩ := entry
      obtain ⟨smallest, others⟩ := List.pairwise_cons.mp ordered
      rw [Members.setSorted]
      split
      · next same => exact List.pairwise_cons.mpr ⟨smallest, others⟩
      · next differs =>
          split
          · next before =>
              refine List.pairwise_cons.mpr ⟨List.forall_mem_cons.mpr ⟨before, ?_⟩, ordered⟩
              exact fun entry inside => String.lt_trans before (smallest entry inside)
          · next after =>
              refine List.pairwise_cons.mpr ⟨fun entry inside => ?_, ih others⟩
              rcases mem_setSorted inside with rfl | inside
              · exact lt_of_ne_of_not_lt differs after
              · exact smallest entry inside

theorem InKeyOrder.extendSorted (ordered : InKeyOrder members) (entries : List (String × α)) :
    InKeyOrder (extendSorted members entries) := by
  induction entries generalizing members with
  | nil => exact ordered
  | cons entry entries ih => exact ih (ordered.setSorted entry.1 entry.2)

theorem inKeyOrder_sorted (entries : List (String × α)) : InKeyOrder (sorted entries) :=
  InKeyOrder.extendSorted List.Pairwise.nil entries

end SchemaLift.Members
