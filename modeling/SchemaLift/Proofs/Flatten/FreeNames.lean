import SchemaLift.Proofs.Flatten.Registry

/-!
# The search for a free name

While a document is flattened, schemas are registered, taken out and put back
(`Registry.Operation`). Only registering one takes a name, so which names are free after any of
these operations depends on the names that were there and on those that were registered.

A name that is given out is the result of a search that tries one number after the other and has no
bound of its own (`Registry.Search`). It ends at the least number whose name is free, and that is
not above the number of schemas (`Registry.uniqueName_performAll`).
-/

namespace SchemaLift.Registry

/-! ## Operations -/

/-- What is done to a registry while a document is flattened. -/
inductive Operation where
  | register (base name : String) (schema : Schema)
  | take (name : String)
  | restore (name : String) (schema : Schema)

/-- The name under which an operation registers a schema. -/
def Operation.registers? : Operation → Option String
  | .register _ name _ => some name
  | .take _ => none
  | .restore _ _ => none

/-- The registry after an operation. There is nothing to take out under a name that is not there. -/
def perform (registry : Registry) : Operation → Registry
  | .register base name schema => registry.register base name schema
  | .take name => ((registry.take? name).map Prod.snd).getD registry
  | .restore name schema => registry.restore name schema

/-- The registry after several operations. -/
def performAll (registry : Registry) (operations : List Operation) : Registry :=
  operations.foldl perform registry

theorem keys_perform_take (registry : Registry) (name : String) :
    Members.keys (registry.perform (.take name)).schemas = Members.keys registry.schemas := by
  rw [perform, take?]
  cases Members.get? name registry.schemas with
  | none => rfl
  | some schema => exact Members.keys_update name .blank registry.schemas

/-- An operation takes the name under which it registers a schema, and frees none. -/
theorem contains_perform_iff (registry : Registry) (operation : Operation) (name : String) :
    (registry.perform operation).contains name = true ↔
      registry.contains name = true ∨ operation.registers? = some name := by
  simp only [contains_iff]
  cases operation with
  | register base added schema =>
      simp only [perform, register, Members.keys_set, Operation.registers?, Option.some.injEq]
      split
      · next there =>
          have old := Members.has_iff_mem_keys.mp there
          refine ⟨Or.inl, ?_⟩
          rintro (present | rfl)
          · exact present
          · exact old
      · rw [List.mem_append, List.mem_singleton, eq_comm]
  | take taken => simp [keys_perform_take, Operation.registers?]
  | restore restored schema => simp [perform, restore, Operation.registers?]

/-- Taken are the names that were taken before and those that have been registered since. -/
theorem contains_performAll_iff (registry : Registry) (operations : List Operation)
    (name : String) :
    (registry.performAll operations).contains name = true ↔
      registry.contains name = true ∨ name ∈ operations.filterMap Operation.registers? := by
  induction operations generalizing registry with
  | nil => simp [performAll]
  | cons operation rest ih =>
      have step := contains_perform_iff registry operation name
      rw [performAll, List.foldl_cons, ← performAll, ih, step, or_assoc]
      cases adds : operation.registers? with
      | none => simp [adds]
      | some added =>
          rw [List.filterMap_cons_some adds, List.mem_cons, Option.some.injEq,
            @eq_comm _ added name]

/-! ## The search -/

section Search

variable {registry : Registry} {base : String}

/-- The search for a numbered name: from a number on, one number after the other is tried, up to one
whose name is free. -/
inductive Search (registry : Registry) (base : String) : Nat → Nat → Prop
  | found {number : Nat} (free : registry.contains (numbered base number) = false) :
      Search registry base number number
  | next {number last : Nat} (taken : registry.contains (numbered base number) = true)
      (later : Search registry base (number + 1) last) : Search registry base number last

/-- A search ends at the least number from its first on whose name is free. -/
theorem search_iff {first last : Nat} :
    Search registry base first last ↔
      first ≤ last ∧ registry.contains (numbered base last) = false ∧
        ∀ number, first ≤ number → number < last →
          registry.contains (numbered base number) = true := by
  constructor
  · intro search
    induction search with
    | found free => exact ⟨Nat.le_refl _, free, fun _ above below => by omega⟩
    | next taken _ ih =>
        obtain ⟨above, free, least⟩ := ih
        refine ⟨by omega, free, fun number fromFirst below => ?_⟩
        rcases Nat.eq_or_lt_of_le fromFirst with rfl | later
        · exact taken
        · exact least number later below
  · rintro ⟨above, free, least⟩
    obtain ⟨distance, rfl⟩ := Nat.exists_eq_add_of_le above
    induction distance generalizing first with
    | zero => exact .found free
    | succ distance ih =>
        have moved : first + 1 + distance = first + (distance + 1) := by omega
        refine .next (least first (Nat.le_refl _) (by omega)) (moved ▸ ih (by omega) ?_ ?_)
        · rwa [moved]
        · exact fun number after below => least number (by omega) (by omega)

theorem Search.unique {first last other : Nat} (search : Search registry base first last)
    (again : Search registry base first other) : other = last := by
  obtain ⟨above, free, least⟩ := search_iff.mp search
  obtain ⟨aboveToo, freeToo, leastToo⟩ := search_iff.mp again
  rcases Nat.lt_trichotomy other last with below | same | beyond
  · simp [least other aboveToo below] at freeToo
  · exact same
  · simp [leastToo last above beyond] at free

/-- If the base name is taken, a search from the first number on does not go beyond the number of
schemas. -/
theorem Search.le_length {last : Nat} (search : Search registry base 1 last)
    (taken : registry.contains base = true) : last ≤ registry.schemas.length := by
  obtain ⟨positive, _, least⟩ := search_iff.mp search
  have count : last - 1 < (Members.keys registry.schemas).length := by
    refine lt_length_of_taken (contains_iff.mp taken) fun number first below => ?_
    exact contains_iff.mp (least number first (by omega))
  rw [Members.keys, List.length_map] at count
  omega

/-- If the base name is taken, the name that is given out is the one that the search finds. -/
theorem exists_search (taken : registry.contains base = true) :
    ∃ number, Search registry base 1 number ∧
      registry.uniqueName base = numbered base number := by
  have nearest := registry.nearest_uniqueName base
  generalize registry.uniqueName base = name at nearest
  cases nearest with
  | base free => exact absurd (contains_iff.mp taken) free
  | @numbered number _ positive free least =>
      refine ⟨number, search_iff.mpr ⟨positive, ?_, fun smaller above below => ?_⟩, rfl⟩
      · simpa [← contains_iff] using free
      · exact contains_iff.mpr (least smaller above below)

end Search

/-- After any schemas were registered, taken out and put back, in any order, the name that is given
out for a base name is free: it is neither one of those that were there nor one of those that were
registered. It is the base name if that is free. If not, the search ends, at a number that is not
above that of the schemas, and the name is the one with this number; the base name and all its
names with a smaller number are taken. -/
theorem uniqueName_performAll (start : Registry) (operations : List Operation) (base : String) :
    let registry := start.performAll operations
    (∀ name, registry.contains name = true ↔
      start.contains name = true ∨ name ∈ operations.filterMap Operation.registers?) ∧
    registry.contains (registry.uniqueName base) = false ∧
    (registry.contains base = false → registry.uniqueName base = base) ∧
    (registry.contains base = true →
      ∃ number, 1 ≤ number ∧ number ≤ registry.schemas.length ∧
        (∀ last, Search registry base 1 last ↔ last = number) ∧
        registry.uniqueName base = numbered base number ∧
        ∀ smaller, 1 ≤ smaller → smaller < number →
          registry.contains (numbered base smaller) = true) := by
  intro registry
  refine ⟨contains_performAll_iff start operations, ?_, fun free => ?_, fun taken => ?_⟩
  · simpa [← contains_iff] using registry.uniqueName_not_mem base
  · rw [uniqueName, if_neg (by simp [free])]
  · obtain ⟨number, search, name⟩ := exists_search taken
    obtain ⟨positive, _, least⟩ := search_iff.mp search
    refine ⟨number, positive, search.le_length taken, fun last => ⟨search.unique, ?_⟩, name, least⟩
    rintro rfl
    exact search

/-- A registry with two addresses, the first of which was taken out and put back. -/
def addresses : Registry :=
  (ofSchemas [("Address", .boolean true)]).performAll
    [.register "Address" "Address_1" (.boolean false), .take "Address",
      .restore "Address" (.boolean true)]

/-- The next address gets the number of schemas that there are. -/
theorem uniqueName_addresses :
    addresses.contains "Address" = true ∧ addresses.schemas.length = 2 ∧
      addresses.uniqueName "Address" = "Address_2" ∧
      ∃ number, 1 ≤ number ∧ number ≤ addresses.schemas.length ∧
        (∀ last, Search addresses "Address" 1 last ↔ last = number) ∧
        addresses.uniqueName "Address" = numbered "Address" number ∧
        ∀ smaller, 1 ≤ smaller → smaller < number →
          addresses.contains (numbered "Address" smaller) = true :=
  ⟨by decide, by decide, by decide,
    (uniqueName_performAll (ofSchemas [("Address", .boolean true)])
      [.register "Address" "Address_1" (.boolean false), .take "Address",
        .restore "Address" (.boolean true)] "Address").2.2.2 (by decide)⟩

end SchemaLift.Registry
