import SchemaLift.Proofs.Flatten.Calls
import SchemaLift.Proofs.Flatten.Growth
import SchemaLift.Proofs.Flatten.Reported

/-!
# Which schemas share a component

With reuse, the references that two calls of `extract` return in a pass point to the same component
exactly when the schemas that were passed to them have the same base name and equal shapes
(`flatten_shares_iff`). What carries this along the pass is that every extraction so far would be
answered by the registry in the same way again (`Shared`): the answer depends on the base name and
the shape up to equality, and it does not change when shapes are added to which the registry had no
answer. What a call returns is what is logged of its extraction (`Call.Within.exists_mem`).
-/

namespace SchemaLift

namespace Registry

variable {registry later : Registry} {base name : String} {shape other : Schema}

/-- Equal shapes are answered in the same way. -/
theorem reusable?_congr (distinct : shape.DistinctKeys) (equal : shape.same other = true) :
    registry.reusable? base shape = registry.reusable? base other := by
  have answers : ∀ known : Schema, (known == shape) = (known == other) := by
    intro known
    rw [Bool.eq_iff_iff]
    constructor
    · intro same
      exact Schema.same_trans same equal
    · intro same
      exact Schema.same_trans same (Schema.same_symm distinct equal)
  simp only [reusable?, answers]

/-- Answers stay when a shape is added that had none. -/
theorem reusable?_append {known : Extraction} (initial : later.initial = registry.initial)
    (generated : later.generated = registry.generated ++ [known])
    (distinct : known.shape.DistinctKeys)
    (unknown : registry.reusable? known.base known.shape = none)
    (found : registry.reusable? base shape = some name) :
    later.reusable? base shape = some name := by
  have others : ¬(known.base = base ∧ known.shape.same shape = true) := by
    rintro ⟨rfl, equal⟩
    rw [reusable?_congr distinct equal, found] at unknown
    contradiction
  have skipped : (known.base == base && known.shape == shape) = false := by
    rw [Bool.eq_false_iff]
    intro matching
    rw [Bool.and_eq_true, beq_iff_eq] at matching
    exact others matching
  rw [reusable?] at found ⊢
  rw [generated, initial, List.find?_append]
  have last : [known].find? (fun known => known.base == base && known.shape == shape) = none := by
    simp [skipped]
  rw [last, Option.or_none]
  exact found

/-- A shape is known as soon as it has been added. -/
theorem reusable?_self {known : Extraction}
    (generated : later.generated = registry.generated ++ [known])
    (distinct : known.shape.DistinctKeys)
    (unknown : registry.reusable? known.base known.shape = none) :
    later.reusable? known.base known.shape = some known.name := by
  have own : (known.shape == known.shape) = true := Schema.same_refl distinct
  rw [reusable?] at unknown ⊢
  rw [generated, List.find?_append]
  split at unknown
  · contradiction
  · next none =>
      rw [none, Option.none_or]
      simp [own]

/-- A shape without an answer differs from the component schema of its base name. -/
theorem same_eq_false_of_reusable? (unknown : registry.reusable? base shape = none)
    {original : Schema} (there : Members.get? base registry.initial = some original) :
    original.same shape = false := by
  rw [reusable?] at unknown
  split at unknown
  · contradiction
  · rw [there] at unknown
    split at unknown
    · next value same =>
        cases same
        split at unknown
        · contradiction
        · next differs => exact Bool.eq_false_iff.mpr differs
    · contradiction

end Registry

namespace Flatten

/-- All extractions so far would be answered in the same way again. -/
structure Shared (document : Document) (state : State) : Prop where
  named : Named state.registry
  initial : state.registry.initial = document.components.schemas
  shapes : ∀ known ∈ state.registry.generated, known.shape.DistinctKeys
  /-- No shape was registered that equals the component schema of its base name. -/
  fresh : ∀ known ∈ state.registry.generated, ∀ original,
    Members.get? known.base state.registry.initial = some original →
      original.same known.shape = false
  answers : ∀ extraction ∈ state.extractions, extraction.shape.DistinctKeys ∧
    state.registry.reusable? extraction.base extraction.shape = some extraction.name

namespace Shared

variable {document : Document} {before after : State}

theorem start (config : Config) (distinct : document.DistinctKeys) :
    Shared document (Flatten.start config document) :=
  ⟨⟨distinct.names, by simp [Flatten.start, Registry.ofSchemas]⟩, rfl,
    by simp [Flatten.start, Registry.ofSchemas], by simp [Flatten.start, Registry.ofSchemas],
    by simp [Flatten.start]⟩

theorem sameSchemas (shared : Shared document before) (same : before.SameSchemas after) :
    Shared document after := by
  rcases shared with ⟨named, initial, shapes, fresh, answers⟩
  constructor <;> simpa only [same.registry, same.extractions]

theorem withComponent (shared : Shared document before) (name : String) (content : Schema) :
    Shared document (before.withComponent name content) :=
  ⟨shared.named.withComponent name content, shared.initial, shared.shapes, shared.fresh,
    shared.answers⟩

theorem shares (shared : Shared document before) {base name : String} {shape : Schema}
    (distinct : shape.DistinctKeys) (found : before.registry.reusable? base shape = some name)
    (shares : before.Shares base name shape after) : Shared document after := by
  rcases shared with ⟨named, initial, shapes, fresh, answers⟩
  refine ⟨by rwa [shares.registry], by rwa [shares.registry], by rwa [shares.registry],
    by rwa [shares.registry], fun extraction present => ?_⟩
  rw [shares.extractions, List.mem_append, List.mem_singleton] at present
  rw [shares.registry]
  rcases present with old | rfl
  · exact answers extraction old
  · exact ⟨distinct, found⟩

theorem opens (shared : Shared document before) {base name : String} {shape content : Schema}
    (distinct : shape.DistinctKeys) (unknown : before.registry.reusable? base shape = none)
    (opens : before.Opens base name shape content after) : Shared document after := by
  rcases shared with ⟨named, initial, shapes, fresh, answers⟩
  refine ⟨named.opens opens, opens.initial.trans initial, ?_, ?_, ?_⟩
  · intro known present
    rcases opens.mem_generated_iff.mp present with old | rfl
    · exact shapes known old
    · exact distinct
  · intro known present original
    rw [opens.initial]
    rcases opens.mem_generated_iff.mp present with old | rfl
    · exact fresh known old original
    · exact Registry.same_eq_false_of_reusable? unknown
  · intro extraction present
    rcases opens.mem_extractions_iff.mp present with old | rfl
    · rcases answers extraction old with ⟨keys, found⟩
      exact ⟨keys, Registry.reusable?_append opens.initial opens.generated distinct unknown found⟩
    · exact ⟨distinct, Registry.reusable?_self opens.generated distinct unknown⟩

/-! ## Extractions that share a component -/

variable (shared : Shared document after)

include shared

/-- There is a component with the name of the extraction. -/
theorem name_mem_keys {extraction : Extraction} (present : extraction ∈ after.extractions) :
    extraction.name ∈ Members.keys after.registry.schemas := by
  rcases shared.answers extraction present with ⟨_, found⟩
  exact shared.named.mem_keys found

/-- Extractions have the same name exactly when their base names are the same and their shapes are
equal. -/
theorem name_eq_iff (distinct : document.DistinctKeys) {first second : Extraction}
    (left : first ∈ after.extractions) (right : second ∈ after.extractions) :
    first.name = second.name ↔
      first.base = second.base ∧ first.shape.same second.shape = true := by
  rcases shared.answers first left with ⟨firstKeys, firstFound⟩
  rcases shared.answers second right with ⟨_, secondFound⟩
  constructor
  · intro names
    have originalKey : ∀ {base original}, Members.get? base after.registry.initial = some original →
        base ∈ Members.keys after.registry.initial := fun found =>
      Members.mem_keys_of_mem (Members.mem_of_get?_eq_some found)
    rcases Registry.reusable?_eq_some firstFound with
      ⟨known, present, base, same, name⟩ | ⟨base, original, there, same⟩
    · rcases Registry.reusable?_eq_some secondFound with
        ⟨other, inside, otherBase, otherSame, otherName⟩ | ⟨otherBase, _, there, _⟩
      · obtain rfl : known = other :=
          shared.named.eq_of_name_eq present inside (by rw [name, otherName, names])
        constructor
        · exact base.symm.trans otherBase
        · exact Schema.same_trans (Schema.same_symm (shared.shapes known present) same) otherSame
      · apply absurd (originalKey there)
        rw [← otherBase, ← names, ← name]
        exact shared.named.not_mem_initial present
    · rcases Registry.reusable?_eq_some secondFound with
        ⟨other, inside, _, _, otherName⟩ | ⟨otherBase, found, here, otherSame⟩
      · apply absurd (originalKey there)
        rw [← base, names, ← otherName]
        exact shared.named.not_mem_initial inside
      · have bases : first.base = second.base := base.symm.trans (names.trans otherBase)
        rw [bases] at there
        cases there.symm.trans here
        rw [shared.initial] at here
        have keys := distinct.components _ _ (Members.mem_of_get?_eq_some here)
        exact ⟨bases, Schema.same_trans (Schema.same_symm keys same) otherSame⟩
  · rintro ⟨bases, equal⟩
    rw [bases, Registry.reusable?_congr firstKeys equal, secondFound] at firstFound
    exact (Option.some.inj firstFound).symm

/-- A shape that equals the component schema of its base name shares it. -/
theorem name_eq_base {extraction : Extraction} (present : extraction ∈ after.extractions)
    {original : Schema}
    (there : Members.get? extraction.base document.components.schemas = some original)
    (equal : original.same extraction.shape = true) : extraction.name = extraction.base := by
  rcases shared.answers extraction present with ⟨_, found⟩
  rcases Registry.reusable?_eq_some found with ⟨known, inside, base, same, _⟩ | ⟨name, _⟩
  · have flipped := Schema.same_symm (shared.shapes known inside) same
    have fresh := shared.fresh known inside original (by rw [base, shared.initial, there])
    rw [Schema.same_trans equal flipped] at fresh
    contradiction
  · exact name

end Shared

/-! ## The account -/

/-- The account of a pass with reuse: extractions keep being answered in the same way. -/
def sharing (config : Config) (document : Document)
    (reuse : config.options.skipSchemaReuse = false) : Account config where
  Inv := Shared document
  Later _ _ := True
  Fits _ _ schema := schema.DistinctKeys
  Becomes _ _ _ schema result := schema.DistinctKeys → result.DistinctKeys
  later_refl _ := trivial
  later_trans _ _ := trivial
  becomes_later _ := id
  sameSchemas shared same := ⟨shared.sameSchemas same, trivial⟩
  fits_child := by
    intro policy role schema child edge distinct below
    rcases distinct.hoisted with ⟨_, _, each⟩
    exact each edge child below
  reference _ _ _ _ := id
  kept := by
    intro state policy role schema below _ _ _ related distinct
    rcases distinct.hoisted with ⟨_, _, each⟩
    apply distinct.hoisted.withChildren related.keys_eq
    intro edge child present
    rcases related.exists_left present with ⟨original, there, becomes⟩
    exact becomes (each edge original there)
  shared shared distinct _ _ found shares :=
    ⟨shared.shares distinct found shares, trivial, fun keys => distinctKeys_replacement keys _⟩
  opened shared distinct _ unknown opens := shared.opens distinct (unknown reuse) opens
  closed _ _ _ _ ends _ _ _ :=
    ⟨ends.withComponent _ _, trivial, fun keys => distinctKeys_replacement keys _⟩
  taken shared _ := shared.withComponent _ _
  returned _ _ _ ends _ _ := ⟨ends.withComponent _ _, trivial, id⟩
  fits_again distinct becomes := becomes distinct
  again _ first second distinct := second (first distinct)

theorem yields_sharing (config : Config) (reuse : config.options.skipSchemaReuse = false)
    {document : Document} (distinct : document.DistinctKeys) :
    Yields (visitDocument config document) (start config document) fun _ after =>
      Shared document after := by
  have own : document.Related (Keeps fun _ schema => schema.DistinctKeys) document :=
    Document.related_self distinct.mentioned
  have roots := own.mono fun enums schema other fits => And.intro fits.1 fits.2
  exact ((sharing config document reuse).visitDocument (Shared.start config distinct)
    distinct.names roots distinct.components).mono fun _ _ settles => settles.inv

/-- A pass with reuse, with any other options, makes a call of `extract` for each name that its
report lists; what is passed to a call and what it returns is the same for all calls within the
outcome at that point of the log. A call returns a reference to a component of the result. The
references of two calls point to the same component exactly when their base names are the same and
the schemas that were passed to them are equal. If a schema equals the component schema that the
document has under the base name, the reference points to that component. -/
theorem flatten_shares_iff (config : Config) (reuse : config.options.skipSchemaReuse = false)
    {document : Document} (distinct : document.DistinctKeys) :
    ∃ outcome, document.flatten config = .ok outcome ∧
      (∀ index < outcome.report.registered.length + outcome.report.reused.length,
        ∃ call : Call config, call.Within outcome ∧ call.before.extractions.length = index ∧
          ∀ other : Call config, other.Within outcome → other.before.extractions.length = index →
            other.schema = call.schema ∧ other.base = call.base ∧ other.result = call.result) ∧
      (∀ call : Call config, call.Within outcome →
        ∃ name ∈ Members.keys outcome.document.components.schemas, call.PointsTo name) ∧
      (∀ first second : Call config, first.Within outcome → second.Within outcome →
        ((∃ name, first.PointsTo name ∧ second.PointsTo name) ↔
          first.base = second.base ∧ first.schema.same second.schema = true)) ∧
      ∀ call : Call config, call.Within outcome → ∀ original,
        Members.get? call.base document.components.schemas = some original →
          original.same call.schema = true → call.PointsTo call.base := by
  have calls := (calling config).visitDocument document
  obtain ⟨outcome, paths, after, run, ⟨shared, ⟨covers, _⟩, tells⟩, result, report, extractions⟩ :=
    flatten_of_yields ((yields_sharing config reuse distinct).and
      (calls.and (yields_telling config distinct.names)))
  refine ⟨outcome, run, ?_, ?_, ?_, ?_⟩
  · intro index below
    rw [report, tells.count] at below
    obtain ⟨call, starts, logged⟩ := covers.made index (Nat.zero_le index) below
    have within : call.Within outcome := by
      rw [Call.Within, extractions]
      exact logged
    refine ⟨call, within, starts, fun other also same => ?_⟩
    exact within.agree also (same.trans starts.symm)
  · intro call within
    obtain ⟨name, points, entry⟩ := within.exists_mem
    rw [extractions] at entry
    rw [result]
    exact ⟨name, shared.name_mem_keys entry, points⟩
  · intro first second left right
    obtain ⟨name, points, entry⟩ := left.exists_mem
    obtain ⟨other, alsoPoints, otherEntry⟩ := right.exists_mem
    rw [extractions] at entry otherEntry
    have names := shared.name_eq_iff distinct entry otherEntry
    constructor
    · rintro ⟨both, toBoth, alsoToBoth⟩
      exact names.mp ((points.unique toBoth).trans (alsoToBoth.unique alsoPoints))
    · intro equal
      obtain rfl : name = other := names.mpr equal
      exact ⟨name, points, alsoPoints⟩
  · intro call within original there equal
    obtain ⟨name, points, entry⟩ := within.exists_mem
    rw [extractions] at entry
    obtain rfl : name = call.base := shared.name_eq_base entry there equal
    exact points

/-- Customers of the shop share the component schema of their title. -/
theorem shop_shares :
    ({} : Config).options.skipSchemaReuse = false ∧ shop.DistinctKeys ∧
      ∃ outcome, shop.flatten {} = .ok outcome ∧
        (∀ index < outcome.report.registered.length + outcome.report.reused.length,
          ∃ call : Call {}, call.Within outcome ∧ call.before.extractions.length = index ∧
            ∀ other : Call {}, other.Within outcome → other.before.extractions.length = index →
              other.schema = call.schema ∧ other.base = call.base ∧
                other.result = call.result) ∧
        (∀ call : Call {}, call.Within outcome →
          ∃ name ∈ Members.keys outcome.document.components.schemas, call.PointsTo name) ∧
        (∀ first second : Call {}, first.Within outcome → second.Within outcome →
          ((∃ name, first.PointsTo name ∧ second.PointsTo name) ↔
            first.base = second.base ∧ first.schema.same second.schema = true)) ∧
        ∀ call : Call {}, call.Within outcome → ∀ original,
          Members.get? call.base shop.components.schemas = some original →
            original.same call.schema = true → call.PointsTo call.base :=
  ⟨rfl, distinctKeys_shop, flatten_shares_iff {} rfl distinctKeys_shop⟩

end Flatten

end SchemaLift
