import SchemaLift.Proofs.Members.Lookup

/-!
# Taking members out and putting members together

Readers take some members out of a map, move one to its end and keep the others; writers put maps
together one member at a time. Where no key stands twice, the first are filters
(`Members.takeAs_eq`, `Members.moveToEnd_eq`), which commute with each other, and the second is
concatenation (`Members.extend_eq_append`).
-/

namespace SchemaLift.Members

variable {κ α β : Type}

/-! ## Filters -/

theorem Distinct.filter {members : List (κ × α)} (distinct : Distinct members)
    (keep : κ × α → Bool) : Distinct (members.filter keep) :=
  distinct.sublist (List.filter_sublist.map Prod.fst)

theorem Distinct.get?_eq_some_iff [DecidableEq κ] {members : List (κ × α)}
    (distinct : Distinct members) {key : κ} {value : α} :
    get? key members = some value ↔ (key, value) ∈ members :=
  ⟨mem_of_get?_eq_some, distinct.get?_eq_some⟩

/-- A lookup among the members that are kept. -/
theorem Distinct.get?_filter [DecidableEq κ] {members : List (κ × α)} (distinct : Distinct members)
    (keep : κ × α → Bool) (key : κ) :
    get? key (members.filter keep) = (get? key members).filter fun value => keep (key, value) := by
  ext value
  rw [(distinct.filter keep).get?_eq_some_iff, List.mem_filter, Option.filter_eq_some_iff,
    distinct.get?_eq_some_iff]

theorem Distinct.get?_congr [DecidableEq κ] {left right : List (κ × α)} (distinct : Distinct left)
    (other : Distinct right) {key : κ}
    (same : ∀ value, (key, value) ∈ left ↔ (key, value) ∈ right) :
    get? key left = get? key right := by
  ext value
  rw [distinct.get?_eq_some_iff, other.get?_eq_some_iff, same]

theorem distinct_append_iff {front back : List (κ × α)} :
    Distinct (front ++ back) ↔
      Distinct front ∧ Distinct back ∧ ∀ key ∈ keys front, key ∉ keys back := by
  rw [Distinct, keys_append, List.nodup_append']
  rfl

/-- A member that is taken out if it can be read, or else left where it is. -/
theorem takeAs_eq {members : Members α} (distinct : Distinct members) (read : α → Option β)
    (key : String) :
    takeAs read key members =
      ((get? key members).bind read,
        members.filter fun member => !(member.1 == key && (read member.2).isSome)) := by
  rw [takeAs]
  cases found : (get? key members).bind read with
  | none =>
      have kept : members.filter (fun member => !(member.1 == key && (read member.2).isSome)) =
          members := by
        apply List.filter_eq_self.mpr
        rintro ⟨name, value⟩ present
        by_cases same : name = key
        · subst same
          rw [distinct.get?_eq_some present] at found
          simp [Option.bind_some] at found
          simp [found]
        · simp [same]
      simp only [kept]
  | some result =>
      rcases Option.bind_eq_some_iff.mp found with ⟨value, own, readable⟩
      have dropped : erase key members =
          members.filter fun member => !(member.1 == key && (read member.2).isSome) := by
        apply List.filter_congr
        rintro ⟨name, other⟩ present
        by_cases same : name = key
        · subst same
          cases own.symm.trans (distinct.get?_eq_some present)
          simp [readable]
        · simp [same]
      simp only [dropped]

/-! ## A member moved to the end -/

theorem moveToEnd_eq {members : Members α} (distinct : Distinct members) (key : String) :
    moveToEnd key members =
      members.filter (·.1 ≠ key) ++ members.filter (·.1 = key) := by
  rw [moveToEnd]
  cases found : get? key members with
  | none =>
      have absent := get?_eq_none_iff.mp found
      have last : members.filter (·.1 = key) = [] := by
        apply List.filter_eq_nil_iff.mpr
        rintro ⟨name, value⟩ present same
        exact absent (of_decide_eq_true same ▸ mem_keys_of_mem present)
      have front : members.filter (·.1 ≠ key) = members := erase_of_not_mem absent
      rw [last, front, List.append_nil]
  | some value =>
      rcases exists_split_of_get?_eq_some found with ⟨front, back, rfl, absent⟩
      have apart := distinct_append_iff.mp distinct
      have later : key ∉ keys back := (List.nodup_cons.mp apart.2.1).1
      have none : ∀ {others : Members α}, key ∉ keys others →
          others.filter (·.1 = key) = [] := by
        intro others absent
        apply List.filter_eq_nil_iff.mpr
        rintro ⟨name, value⟩ present same
        exact absent (of_decide_eq_true same ▸ mem_keys_of_mem present)
      rw [List.filter_append, List.filter_append, List.filter_cons, List.filter_cons, none absent,
        none later]
      simp [erase]

theorem mem_moveToEnd {members : Members α} (distinct : Distinct members) {key : String}
    {member : String × α} : member ∈ moveToEnd key members ↔ member ∈ members := by
  rw [moveToEnd_eq distinct]
  by_cases same : member.1 = key <;> simp [same]

theorem Distinct.moveToEnd {members : Members α} (distinct : Distinct members) (key : String) :
    Distinct (moveToEnd key members) := by
  rw [moveToEnd_eq distinct]
  refine distinct_append_iff.mpr ⟨distinct.filter _, distinct.filter _, fun name front back => ?_⟩
  rcases mem_keys_iff.mp front with ⟨value, kept⟩
  rcases mem_keys_iff.mp back with ⟨other, moved⟩
  have differs := (List.mem_filter.mp kept).2
  have same := (List.mem_filter.mp moved).2
  simp at differs same
  exact differs same

theorem get?_moveToEnd {members : Members α} (distinct : Distinct members) (key name : String) :
    get? name (moveToEnd key members) = get? name members :=
  (distinct.moveToEnd key).get?_congr distinct fun _ => mem_moveToEnd distinct

/-- It is all the same whether members are dropped before or after one is moved. -/
theorem filter_moveToEnd {members : Members α} (distinct : Distinct members) (key : String)
    (keep : String × α → Bool) :
    (moveToEnd key members).filter keep = moveToEnd key (members.filter keep) := by
  rw [moveToEnd_eq distinct, moveToEnd_eq (distinct.filter keep), List.filter_append,
    List.filter_filter, List.filter_filter, List.filter_filter, List.filter_filter]
  simp only [Bool.and_comm]

theorem moveToEnd_of_not_mem {members : Members α} {key : String} (absent : key ∉ keys members) :
    moveToEnd key members = members := by
  rw [moveToEnd, get?_eq_none_iff.mpr absent]

/-- A member that is at the end stays there. -/
theorem moveToEnd_moveToEnd {members : Members α} (distinct : Distinct members) (key : String) :
    moveToEnd key (moveToEnd key members) = moveToEnd key members := by
  rw [moveToEnd_eq (distinct.moveToEnd key), moveToEnd_eq distinct, List.filter_append,
    List.filter_append]
  simp [List.filter_filter]

theorem moveToEnd_of_last {members : Members α} {key : String}
    (last : ∀ front back, keys members = front ++ key :: back → back = [])
    (distinct : Distinct members) : moveToEnd key members = members := by
  by_cases present : key ∈ keys members
  · rcases exists_get?_eq_some_of_mem_keys present with ⟨value, found⟩
    rcases exists_split_of_get?_eq_some found with ⟨front, back, rfl, absent⟩
    obtain rfl : back = [] := by
      have none := last (keys front) (keys back) (by rw [keys_append, keys_cons])
      exact List.map_eq_nil_iff.mp none
    have own : (front.filter fun member => decide (member.1 = key)) = [] := by
      apply List.filter_eq_nil_iff.mpr
      rintro ⟨name, inner⟩ inside same
      exact absent (of_decide_eq_true same ▸ mem_keys_of_mem inside)
    have others := erase_of_not_mem absent
    unfold erase at others
    rw [moveToEnd_eq distinct, List.filter_append, List.filter_append, others, own]
    simp
  · exact moveToEnd_of_not_mem present

/-- Where all that follows some names is one name that is not among them, nothing comes after it. -/
theorem eq_nil_of_split {items last front back : List κ} {key : κ}
    (absent : key ∉ items) (only : ∀ name ∈ last, name = key) (distinct : last.Nodup)
    (split : items ++ last = front ++ key :: back) : back = [] := by
  have alone : ∀ {middle : List κ}, last = middle ++ key :: back → back = [] := by
    rintro middle rfl
    have apart := (List.nodup_cons.mp (List.nodup_append.mp distinct).2.1).1
    apply List.eq_nil_iff_forall_not_mem.mpr
    intro name present
    have same := only name (by simp [present])
    exact apart (same ▸ present)
  rcases List.append_eq_append_iff.mp split with ⟨middle, _, later⟩ | ⟨middle, rfl, later⟩
  · exact alone later
  · cases middle with
    | nil =>
        rw [List.nil_append] at later
        exact alone (later.symm.trans (List.nil_append _).symm)
    | cons first rest =>
        cases later
        exact absurd (by simp) absent

theorem eq_nil_of_keys_moveToEnd {members : Members α} (distinct : Distinct members) {key : String}
    {front back : List String} (split : keys (moveToEnd key members) = front ++ key :: back) :
    back = [] := by
  have whole := distinct.moveToEnd key
  rw [moveToEnd_eq distinct] at split whole
  rw [keys_append] at split
  refine eq_nil_of_split ?_ ?_ (distinct_append_iff.mp whole).2.1 split
  · simp [mem_keys_iff]
  · simp [mem_keys_iff]

/-! ## Members put together -/

theorem set_of_mem {key : String} {value : α} {members : Members α} (distinct : Distinct members)
    (present : key ∈ keys members) :
    set key value members =
      members.map fun member => (member.1, if member.1 = key then value else member.2) := by
  induction members with
  | nil => cases present
  | cons member rest ih =>
      rcases member with ⟨name, old⟩
      rcases List.nodup_cons.mp distinct with ⟨absent, distinct⟩
      by_cases same : name = key
      · subst same
        have later : (rest.map fun member =>
            (member.1, if member.1 = name then value else member.2)) = rest := by
          refine (List.map_congr_left ?_).trans (List.map_id rest)
          rintro ⟨other, inner⟩ inside
          have differs : other ≠ name := by
            rintro rfl
            exact absent (mem_keys_of_mem inside)
          simp [differs]
        simp [set, later]
      · have later := ih distinct (by simpa [Ne.symm same] using present)
        simp [set, same, later]

/-- Members that are set keep their places; those that were not there come last. -/
theorem extend_eq {members additions : Members α} (distinct : Distinct members)
    (apart : Distinct additions) :
    extend members additions =
      (members.map fun member => (member.1, (get? member.1 additions).getD member.2)) ++
        additions.filter fun addition => !(keys members).contains addition.1 := by
  induction additions generalizing members with
  | nil => simp [extend]
  | cons addition rest ih =>
      rcases addition with ⟨key, value⟩
      rcases List.nodup_cons.mp apart with ⟨absent, apart⟩
      have none : get? key rest = none := get?_eq_none_iff.mpr absent
      change extend (set key value members) rest = _
      rw [ih (distinct.set key value) apart]
      by_cases present : key ∈ keys members
      · have dropped : (keys members).contains key = true := by simpa using present
        rw [keys_set, if_pos (has_iff_mem_keys.mpr present), set_of_mem distinct present,
          List.map_map, List.filter_cons, dropped]
        congr 1
        apply List.map_congr_left
        rintro ⟨name, old⟩ _
        by_cases same : name = key
        · subst same
          simp [get?_cons, none]
        · simp [get?_cons, same, Ne.symm same]
      · have kept : (keys members).contains key = false := by simpa using present
        have others : (rest.filter fun addition => !(keys members ++ [key]).contains addition.1) =
            rest.filter fun addition => !(keys members).contains addition.1 := by
          apply List.filter_congr
          rintro ⟨name, inner⟩ inside
          have differs : name ≠ key := by
            rintro rfl
            exact absent (mem_keys_of_mem inside)
          simp [differs]
        have front : (members.map fun member =>
              (member.1, (get? member.1 ((key, value) :: rest)).getD member.2)) =
            members.map fun member => (member.1, (get? member.1 rest).getD member.2) := by
          apply List.map_congr_left
          rintro ⟨name, old⟩ inside
          have differs : key ≠ name := by
            rintro rfl
            exact present (mem_keys_of_mem inside)
          simp [get?_cons, differs]
        rw [set_of_not_mem present, keys_append, keys_cons, keys_nil, others, front,
          List.filter_cons, kept]
        simp [none]

theorem extend_eq_append {members additions : Members α}
    (distinct : Distinct (members ++ additions)) :
    extend members additions = members ++ additions := by
  induction additions generalizing members with
  | nil => exact (List.append_nil members).symm
  | cons addition rest ih =>
      rcases addition with ⟨key, value⟩
      have whole : members ++ (key, value) :: rest = (members ++ [(key, value)]) ++ rest := by simp
      have absent : key ∉ keys members := by
        intro present
        exact (distinct_append_iff.mp distinct).2.2 key present List.mem_cons_self
      rw [whole] at distinct ⊢
      rw [← ih distinct, ← set_of_not_mem absent]
      rfl

end SchemaLift.Members
