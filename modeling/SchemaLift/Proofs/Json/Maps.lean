import SchemaLift.Proofs.Json.Equality

/-!
# Maps with distinct keys

Reading takes members out of a map, drops some and moves others. None of this makes a key stand
twice (`Json.DistinctMap.sublist`), and neither does setting one entry after the other
(`Members.distinct_extend`).
-/

namespace SchemaLift

/-! ## Entries set one after the other -/

namespace Members

variable {α : Type}

theorem mem_of_mem_set {key name : String} {value other : α} {members : Members α}
    (present : (name, other) ∈ set key value members) :
    other = value ∨ (name, other) ∈ members := by
  induction members with
  | nil =>
      cases List.mem_singleton.mp present
      exact Or.inl rfl
  | cons member rest ih =>
      rcases member with ⟨first, old⟩
      rw [set] at present
      by_cases same : first = key
      · rw [if_pos same] at present
        rcases List.mem_cons.mp present with here | later
        · cases here
          exact Or.inl rfl
        · exact Or.inr (List.mem_cons_of_mem _ later)
      · rw [if_neg same] at present
        rcases List.mem_cons.mp present with here | later
        · cases here
          exact Or.inr List.mem_cons_self
        · exact (ih later).imp_right (List.mem_cons_of_mem _)

theorem distinct_extend {members additions : Members α} (distinct : Distinct members) :
    Distinct (extend members additions) := by
  induction additions generalizing members with
  | nil => exact distinct
  | cons addition rest ih => exact ih (distinct.set addition.1 addition.2)

theorem exists_of_mem_extend {members additions : Members α} {name : String} {value : α}
    (present : (name, value) ∈ extend members additions) :
    (∃ key, (key, value) ∈ additions) ∨ (name, value) ∈ members := by
  induction additions generalizing members with
  | nil => exact Or.inr present
  | cons addition rest ih =>
      rcases ih present with ⟨key, later⟩ | set
      · exact Or.inl ⟨key, List.mem_cons_of_mem _ later⟩
      · rcases mem_of_mem_set set with rfl | before
        · exact Or.inl ⟨addition.1, List.mem_cons_self⟩
        · exact Or.inr before

theorem takeAs_sublist {β : Type} (read : α → Option β) (key : String) (members : Members α) :
    (takeAs read key members).2.Sublist members := by
  rw [takeAs]
  cases (get? key members).bind read with
  | none => exact List.Sublist.refl members
  | some => exact List.filter_sublist

end Members

namespace Json

theorem distinctMap_nil : DistinctMap [] :=
  ⟨List.nodup_nil, by simp⟩

theorem distinctMap_cons_iff {key : String} {value : Json} {rest : Members Json} :
    DistinctMap ((key, value) :: rest) ↔
      key ∉ Members.keys rest ∧ value.DistinctKeys ∧ DistinctMap rest := by
  simp only [DistinctMap, Members.Distinct, Members.keys_cons, List.nodup_cons, List.mem_cons,
    Prod.mk.injEq]
  constructor
  · rintro ⟨⟨absent, names⟩, each⟩
    exact ⟨absent, each key value (Or.inl ⟨rfl, rfl⟩), names,
      fun name inner present => each name inner (Or.inr present)⟩
  · rintro ⟨absent, own, names, each⟩
    refine ⟨⟨absent, names⟩, ?_⟩
    rintro name inner (⟨rfl, rfl⟩ | present)
    · exact own
    · exact each name inner present

/-- A value without parts has no key twice. -/
theorem distinctKeys_of_parts_eq_nil {value : Json} (none : value.parts = []) :
    value.DistinctKeys := by
  constructor
  · cases value with
    | object members =>
        rw [List.map_eq_nil_iff.mp none]
        exact List.nodup_nil
    | _ => exact List.nodup_nil
  · intro part inside
    rw [none] at inside
    cases inside

/-! ## Parts of a map -/

namespace DistinctMap

variable {members others : Members Json}

theorem sublist (distinct : DistinctMap members) (part : others.Sublist members) :
    DistinctMap others := by
  constructor
  · exact distinct.1.sublist (part.map Prod.fst)
  · intro key value present
    exact distinct.2 key value (part.subset present)

theorem filter (distinct : DistinctMap members) (keep : String × Json → Bool) :
    DistinctMap (members.filter keep) :=
  distinct.sublist List.filter_sublist

theorem erase (distinct : DistinctMap members) (key : String) :
    DistinctMap (Members.erase key members) :=
  distinct.filter _

theorem takeAs {β : Type} (distinct : DistinctMap members) (read : Json → Option β)
    (key : String) : DistinctMap (Members.takeAs read key members).2 :=
  distinct.sublist (Members.takeAs_sublist read key members)

theorem get? (distinct : DistinctMap members) {key : String} {value : Json}
    (found : Members.get? key members = some value) : value.DistinctKeys :=
  distinct.2 key value (Members.mem_of_get?_eq_some found)

theorem moveToEnd (distinct : DistinctMap members) (key : String) :
    DistinctMap (Members.moveToEnd key members) := by
  rw [Members.moveToEnd]
  cases found : Members.get? key members with
  | none => exact distinct
  | some value =>
      have rest := distinct.erase key
      constructor
      · rw [Members.Distinct, Members.keys_append]
        refine List.nodup_append.mpr ⟨rest.1, List.nodup_singleton key, ?_⟩
        intro name present other single same
        rcases Members.mem_keys_iff.mp present with ⟨kept, member⟩
        have differs := (Members.mem_erase_iff.mp member).2
        exact differs (same.trans (List.mem_singleton.mp single))
      · intro name other present
        rcases List.mem_append.mp present with before | last
        · exact rest.2 name other before
        · cases List.mem_singleton.mp last
          exact distinct.get? found

theorem value (distinct : DistinctMap members) {key : String} {inner : Members Json}
    (found : Members.get? key members = some (.object inner)) : DistinctMap inner :=
  (distinctMap_iff_distinctKeys inner).mpr (distinct.get? found)

end DistinctMap

theorem DistinctKeys.part {value part : Json} (distinct : value.DistinctKeys)
    (inside : part ∈ value.parts) : part.DistinctKeys := by
  rcases distinct with ⟨_, below⟩
  exact below part inside

end Json

end SchemaLift
