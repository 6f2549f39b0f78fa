import SchemaLift.Proofs.Members.Taking
import SchemaLift.Proofs.Schema.Reader
import SchemaLift.Schema.Writer

/-!
# Data of schemas, written and read again

Metadata are read by lookups and filters (`Metadata.ofMembers_eq`). What they are read from is not
left among the extra members, and a key that has a typed value is not found there either
(`Metadata.Settled`). So the members that are written of such metadata are read as the same metadata
(`Metadata.Settled.ofMembers_own`). The same holds of declared types and discriminators.
-/

namespace SchemaLift

/-! ## Members that are written only sometimes -/

section Written

variable {α : Type}

@[simp]
theorem get?_optional (name key : String) (write : α → Json) (value : Option α) :
    Members.get? name (optional key write value) =
      if key = name then value.map write else none := by
  cases value <;> simp [optional, Members.get?_cons]

theorem mem_keys_optional {name key : String} {write : α → Json} {value : Option α} :
    name ∈ Members.keys (optional key write value) ↔ name = key ∧ value.isSome := by
  cases value <;> simp [optional]

theorem mem_optional {name key : String} {write : α → Json} {value : Option α} {found : Json} :
    (name, found) ∈ optional key write value ↔
      name = key ∧ ∃ own, value = some own ∧ found = write own := by
  cases value <;> simp [optional]

theorem keys_optional_sublist (key : String) (write : α → Json) (value : Option α) :
    (Members.keys (optional key write value)).Sublist [key] := by
  cases value <;> simp [optional]

/-- A typed value is found again if what else stands under its key cannot be read as one. -/
theorem bind_or_map {β : Type} {write : α → β} {read : β → Option α} {value : Option α}
    {rest : Option β} (inverse : ∀ own, read (write own) = some own)
    (unread : rest.bind read = none) :
    ((value.map write).or rest).bind read = value := by
  cases value with
  | none => exact unread
  | some own => exact inverse own

end Written

/-! ## Declared types -/

namespace DeclaredType

theorem ofMembers_congr {left right : Members Json}
    (same : Members.get? Keyword.type.text left = Members.get? Keyword.type.text right) :
    ofMembers left = ofMembers right := by
  simp only [ofMembers, same]

theorem strings?_strings (names : List String) :
    (Json.strings names).strings? = some names := by
  induction names with
  | nil => rfl
  | cons name rest ih =>
      simp only [Json.strings, Json.strings?, List.map_cons, List.mapM_cons] at ih ⊢
      simp [Json.string?, ih]

theorem ofMembers_eq_ok {members : Members Json} {declared : Option DeclaredType}
    (written : Members.get? "type" members = declared.map toJson) :
    ofMembers members = .ok declared := by
  rw [ofMembers, Keyword.text, written]
  cases declared with
  | none => rfl
  | some declared =>
      cases declared with
      | single name => rfl
      | several names =>
          have read := strings?_strings names
          rw [Json.strings] at read
          simp [toJson, Json.strings, read]

theorem exists_of_ofMembers {members : Members Json} {declared : DeclaredType}
    (read : ofMembers members = .ok (some declared)) :
    ∃ value, Members.get? "type" members = some value := by
  rw [ofMembers, Keyword.text] at read
  cases found : Members.get? "type" members with
  | none => simp [found] at read
  | some value => exact ⟨value, rfl⟩

end DeclaredType

/-! ## Metadata -/

namespace Metadata

open Members

/-- Whether metadata take the member, so that it is not left among the extra members. -/
def takes (member : String × Json) : Bool :=
  ["type", "default", "example"].contains member.1 ||
    ["title", "description"].contains member.1 && member.2.string?.isSome ||
    ["nullable", "readOnly", "writeOnly", "deprecated"].contains member.1 && member.2.bool?.isSome

theorem takes_extension {member : String × Json} (own : isExtension member.1 = true) :
    takes member = false := by
  have differs : ∀ key, isExtension key = false → member.1 ≠ key := by
    rintro key plain same
    rw [same, plain] at own
    cases own
  simp [takes, differs "type" rfl, differs "default" rfl, differs "example" rfl,
    differs "title" rfl, differs "description" rfl, differs "nullable" rfl,
    differs "readOnly" rfl, differs "writeOnly" rfl, differs "deprecated" rfl]

/-- Metadata by lookups and filters. -/
theorem ofMembers_eq {members : Members Json} (distinct : Distinct members) :
    ofMembers members = (do
      let declaredType ← DeclaredType.ofMembers members
      pure
        { declaredType
          title := (get? "title" members).bind Json.string?
          description := (get? "description" members).bind Json.string?
          nullable := (get? "nullable" members).bind Json.bool?
          readOnly := (get? "readOnly" members).bind Json.bool?
          writeOnly := (get? "writeOnly" members).bind Json.bool?
          deprecated := (get? "deprecated" members).bind Json.bool?
          defaultValue := get? "default" members
          exampleValue := get? "example" members
          extensions := members.filter fun member => isExtension member.1
          extra := members.filter fun member => !isExtension member.1 && !takes member }) := by
  have rest : ∀ keep : String × Json → Bool, Distinct (members.filter keep) := distinct.filter
  have all : ∀ option : Option Json, option.filter (fun _ => true) = option := by
    rintro (_ | _) <;> rfl
  simp only [ofMembers, Members.take, erase, takeAs_eq (rest _), List.filter_filter, Keyword.text,
    distinct.get?_filter]
  congr 1
  funext declaredType
  congr 2
  case e_extensions =>
    apply List.filter_congr
    intro member _
    by_cases own : isExtension member.1 = true
    · have untaken := takes_extension own
      simp [takes] at untaken
      simp [own]
      grind
    · simp [own]
  case e_extra =>
    apply List.filter_congr
    intro member _
    rw [Bool.eq_iff_iff]
    simp [takes]
    grind
  all_goals simp [all]

/-- Metadata as they are read: nothing among the extra members could be a typed value, and a `$ref`
among them is the last. -/
structure Settled (metadata : Metadata) : Prop where
  extensions : ∀ member ∈ metadata.extensions, isExtension member.1 = true
  plain : ∀ member ∈ metadata.extra, isExtension member.1 = false
  untaken : ∀ member ∈ metadata.extra, takes member = false
  apart : ∀ key ∈ keys (metadata.head none ++ metadata.flags), key ∉ keys metadata.extra
  last : moveToEnd "$ref" metadata.extra = metadata.extra

/-- A key with a typed value is one that the value was read from. -/
theorem exists_taken {members : Members Json} (distinct : Distinct members) {metadata : Metadata}
    (read : ofMembers members = .ok metadata) {key : String}
    (typed : key ∈ keys (metadata.head none ++ metadata.flags)) :
    ∃ value, get? key members = some value ∧ takes (key, value) = true := by
  rw [ofMembers_eq distinct] at read
  rcases bind_eq_ok_iff.mp read with ⟨declaredType, declared, read⟩
  cases pure_eq_ok_iff.mp read
  have readable : ∀ {α : Type} {key : String} {read : Json → Option α},
      (∀ value, (read value).isSome → takes (key, value) = true) →
        ((get? key members).bind read).isSome →
          ∃ value, get? key members = some value ∧ takes (key, value) = true := by
    intro α key read takes present
    cases found : get? key members with
    | none => simp [found] at present
    | some value => exact ⟨value, rfl, takes value (by simpa [found] using present)⟩
  have plain : ∀ {key : String}, (∀ value, takes (key, value) = true) →
      (get? key members).isSome →
        ∃ value, get? key members = some value ∧ takes (key, value) = true := by
    intro key takes present
    rcases Option.isSome_iff_exists.mp present with ⟨value, found⟩
    exact ⟨value, found, takes value⟩
  simp only [head, flags, keys_append, List.mem_append, mem_keys_optional, Option.isSome_none,
    Bool.false_eq_true, and_false, or_false] at typed
  rcases typed with ((typed | typed) | typed) |
    (((((typed | typed) | typed) | typed) | typed) | typed)
  all_goals rcases typed with ⟨rfl, present⟩
  · rcases Option.isSome_iff_exists.mp present with ⟨own, rfl⟩
    rcases DeclaredType.exists_of_ofMembers declared with ⟨value, found⟩
    exact ⟨value, found, rfl⟩
  · exact readable (by simp [takes]) present
  · exact readable (by simp [takes]) present
  · exact readable (by simp [takes]) present
  · exact readable (by simp [takes]) present
  · exact readable (by simp [takes]) present
  · exact readable (by simp [takes]) present
  · exact plain (by simp [takes]) present
  · exact plain (by simp [takes]) present

theorem mem_of_mem_extra {members : Members Json} (distinct : Distinct members)
    {metadata : Metadata} (read : ofMembers members = .ok metadata) {member : String × Json}
    (present : member ∈ metadata.extra) : member ∈ members := by
  rw [ofMembers_eq distinct] at read
  rcases bind_eq_ok_iff.mp read with ⟨declaredType, _, read⟩
  cases pure_eq_ok_iff.mp read
  exact (List.mem_filter.mp present).1

/-- Metadata that are read from a map in which a `$ref` is the last member are settled. -/
theorem settled_of_ofMembers {members : Members Json} (distinct : Distinct members)
    (last : moveToEnd "$ref" members = members) {metadata : Metadata}
    (read : ofMembers members = .ok metadata) : metadata.Settled := by
  have typed := @exists_taken members distinct metadata read
  rw [ofMembers_eq distinct] at read
  rcases bind_eq_ok_iff.mp read with ⟨declaredType, _, read⟩
  cases pure_eq_ok_iff.mp read
  have extra : ∀ member ∈ members.filter fun member => !isExtension member.1 && !takes member,
      member ∈ members ∧ isExtension member.1 = false ∧ takes member = false := by
    simp
  constructor
  · simp
  · exact fun member present => (extra member present).2.1
  · exact fun member present => (extra member present).2.2
  · intro key own present
    rcases typed own with ⟨value, found, taken⟩
    rcases mem_keys_iff.mp present with ⟨other, inside⟩
    rcases extra _ inside with ⟨there, _, untaken⟩
    cases found.symm.trans (distinct.get?_eq_some there)
    simp [taken] at untaken
  · rw [← filter_moveToEnd distinct, last]

/-- The members that are written of metadata alone. -/
def own (metadata : Metadata) : Members Json :=
  metadata.head none ++ metadata.flags ++ metadata.extra ++ metadata.extensions

section Written

variable {metadata : Metadata} (settled : metadata.Settled)

include settled

theorem Settled.not_mem_extensions {key : String} (plain : isExtension key = false) :
    key ∉ keys metadata.extensions := by
  intro present
  rcases mem_keys_iff.mp present with ⟨value, inside⟩
  have own : isExtension key = true := settled.extensions _ inside
  simp [plain] at own

theorem Settled.get?_own {key : String} (plain : isExtension key = false) :
    get? key metadata.own =
      (get? key (metadata.head none ++ metadata.flags)).or (get? key metadata.extra) := by
  have last := get?_eq_none_iff.mpr (settled.not_mem_extensions plain)
  rw [own, get?_append, get?_append, last, Option.or_none]

theorem Settled.get?_extra {α : Type} {key : String} {read : Json → Option α}
    (taken : ∀ value, (read value).isSome → takes (key, value) = true) :
    (get? key metadata.extra).bind read = none := by
  cases found : get? key metadata.extra with
  | none => rfl
  | some value =>
      have untaken := settled.untaken _ (mem_of_get?_eq_some found)
      cases unread : read value with
      | none => simpa using unread
      | some own =>
          have there := taken value (by simp [unread])
          simp [there] at untaken

theorem Settled.get?_moved (distinct : Distinct metadata.own) {α : Type} (key : String)
    (write : α → Json) (read : Json → Option α) (value : Option α)
    (written : get? key (metadata.head none ++ metadata.flags) = value.map write)
    (plain : isExtension key = false) (inverse : ∀ own, read (write own) = some own)
    (taken : ∀ value, (read value).isSome → takes (key, value) = true) :
    (get? key (moveToEnd "$ref" metadata.own)).bind read = value := by
  rw [get?_moveToEnd distinct, settled.get?_own plain, written]
  exact bind_or_map inverse (settled.get?_extra taken)

omit settled in
/-- What is written before and after the structure of a node would be read as typed values. -/
theorem taken_of_mem {member : String × Json}
    (present : member ∈ metadata.head none ++ metadata.flags) :
    isExtension member.1 = false ∧ takes member = true := by
  rcases member with ⟨key, value⟩
  simp only [head, flags, List.mem_append, mem_optional, reduceCtorEq, false_and, exists_false,
    and_false, or_false] at present
  rcases present with ((present | present) | present) |
    (((((present | present) | present) | present) | present) | present)
  all_goals
    rcases present with ⟨rfl, own, -, rfl⟩
    constructor
    · dsimp only
      rfl
    · simp [takes, Json.string?, Json.bool?]

section Distinct

variable (distinct : Distinct metadata.own)

include distinct

theorem Settled.declaredType_own :
    DeclaredType.ofMembers (moveToEnd "$ref" metadata.own) = .ok metadata.declaredType := by
  apply DeclaredType.ofMembers_eq_ok
  have none : (get? "type" metadata.extra).bind some = none :=
    settled.get?_extra (by simp [takes])
  rw [Option.bind_fun_some] at none
  rw [get?_moveToEnd distinct, settled.get?_own rfl]
  simp [head, flags, get?_append, none]

theorem Settled.extensions_own :
    (moveToEnd "$ref" metadata.own).filter (fun member => isExtension member.1) =
      metadata.extensions := by
  have front : (metadata.head none ++ metadata.flags).filter
      (fun member => isExtension member.1) = [] := by
    apply List.filter_eq_nil_iff.mpr
    intro member present
    simp [(taken_of_mem present).1]
  have middle : metadata.extra.filter (fun member => isExtension member.1) = [] := by
    apply List.filter_eq_nil_iff.mpr
    intro member present
    simp [settled.plain member present]
  rw [filter_moveToEnd distinct, Metadata.own, List.filter_append, List.filter_append, front,
    middle, List.filter_eq_self.mpr settled.extensions]
  exact moveToEnd_of_not_mem (settled.not_mem_extensions rfl)

theorem Settled.extra_own :
    (moveToEnd "$ref" metadata.own).filter
        (fun member => !isExtension member.1 && !takes member) = metadata.extra := by
  have front : (metadata.head none ++ metadata.flags).filter
      (fun member => !isExtension member.1 && !takes member) = [] := by
    apply List.filter_eq_nil_iff.mpr
    intro member present
    simp [(taken_of_mem present).2]
  have middle : metadata.extra.filter (fun member => !isExtension member.1 && !takes member) =
      metadata.extra := by
    apply List.filter_eq_self.mpr
    intro member present
    simp [settled.plain member present, settled.untaken member present]
  have back : metadata.extensions.filter
      (fun member => !isExtension member.1 && !takes member) = [] := by
    apply List.filter_eq_nil_iff.mpr
    intro member present
    simp [settled.extensions member present]
  rw [filter_moveToEnd distinct, Metadata.own, List.filter_append, List.filter_append, front,
    middle, back, List.nil_append, List.append_nil, settled.last]

/-- Metadata are read from the members that are written of them. -/
theorem Settled.ofMembers_own : ofMembers (moveToEnd "$ref" metadata.own) = .ok metadata := by
  have text : ∀ key value, get? key (metadata.head none ++ metadata.flags) =
      value.map Json.string → isExtension key = false →
        (∀ value, value.string?.isSome → takes (key, value) = true) →
          (get? key (moveToEnd "$ref" metadata.own)).bind Json.string? = value :=
    fun key value written plain =>
      settled.get?_moved distinct key .string Json.string? value written plain fun _ => rfl
  have flag : ∀ key value, get? key (metadata.head none ++ metadata.flags) =
      value.map Json.bool → isExtension key = false →
        (∀ value, value.bool?.isSome → takes (key, value) = true) →
          (get? key (moveToEnd "$ref" metadata.own)).bind Json.bool? = value :=
    fun key value written plain => settled.get?_moved distinct key .bool Json.bool? value written
      plain fun _ => rfl
  have value : ∀ key value, get? key (metadata.head none ++ metadata.flags) = value →
      isExtension key = false → (∀ value, takes (key, value) = true) →
        get? key (moveToEnd "$ref" metadata.own) = value := by
    intro key value written plain taken
    have found := settled.get?_moved distinct key id some value (by simpa using written) plain
      (fun _ => rfl) fun value _ => taken value
    rwa [Option.bind_fun_some] at found
  have title := text "title" metadata.title (by simp [head, flags, get?_append]) rfl
    (by simp [takes])
  have description := text "description" metadata.description (by simp [head, flags, get?_append])
    rfl (by simp [takes])
  have nullable := flag "nullable" metadata.nullable (by simp [head, flags, get?_append]) rfl
    (by simp [takes])
  have readOnly := flag "readOnly" metadata.readOnly (by simp [head, flags, get?_append]) rfl
    (by simp [takes])
  have writeOnly := flag "writeOnly" metadata.writeOnly (by simp [head, flags, get?_append]) rfl
    (by simp [takes])
  have deprecated := flag "deprecated" metadata.deprecated (by simp [head, flags, get?_append]) rfl
    (by simp [takes])
  have default := value "default" metadata.defaultValue (by simp [head, flags, get?_append]) rfl
    (by simp [takes])
  have sample := value "example" metadata.exampleValue (by simp [head, flags, get?_append]) rfl
    (by simp [takes])
  rw [ofMembers_eq (distinct.moveToEnd _), settled.declaredType_own distinct,
    settled.extensions_own distinct, settled.extra_own distinct, title, description, nullable,
    readOnly, writeOnly, deprecated, default, sample]
  rfl

end Distinct

end Written

end Metadata

/-! ## Discriminators -/

namespace Discriminator

open Members

/-- Discriminators as they are read. -/
structure Settled (discriminator : Discriminator) : Prop where
  propertyName : "propertyName" ∉ keys discriminator.extra
  mapping : "mapping" ∉ keys discriminator.extra

theorem ofMembers_congr {left right : Members Json}
    (same : get? "discriminator" left = get? "discriminator" right) :
    ofMembers left = ofMembers right := by
  simp only [ofMembers, Keyword.text, same]

theorem settled_of_ofMembers {members : Members Json} {discriminator : Discriminator}
    (read : ofMembers members = .ok (some discriminator)) : discriminator.Settled := by
  rw [ofMembers] at read
  split at read
  · next own _ =>
      rw [takeAs] at read
      cases found : (get? "propertyName" own).bind Json.string? with
      | none => simp [found] at read
      | some propertyName =>
          simp only [found] at read
          cases read
          constructor
          · simp [Members.take, mem_keys_iff, mem_erase_iff]
          · simp [Members.take, mem_keys_iff, mem_erase_iff]
  all_goals cases read

/-- The mapping as it is written. -/
def mappingMember (mapping : List (String × String)) : Members Json :=
  if (mapValues Json.string mapping).isEmpty then []
  else [("mapping", .object (mapValues Json.string mapping))]

theorem entries_mapValues (mapping : List (String × String)) :
    ((mapValues Json.string mapping).filterMap fun entry =>
      entry.2.string?.map fun target => (entry.1, target)) = mapping := by
  simp [mapValues, List.filterMap_map, Json.string?]

theorem toJson_eq {discriminator : Discriminator} (settled : discriminator.Settled)
    (distinct : Distinct discriminator.extra) :
    discriminator.toJson =
      .object (("propertyName", .string discriminator.propertyName) ::
        (mappingMember discriminator.mapping ++ discriminator.extra)) := by
  have whole : Distinct
      (("propertyName", Json.string discriminator.propertyName) ::
        mappingMember discriminator.mapping ++ discriminator.extra) := by
    have keys : keys (mappingMember discriminator.mapping) = [] ∨
        keys (mappingMember discriminator.mapping) = ["mapping"] := by
      unfold mappingMember
      split <;> simp
    have extra : (Members.keys discriminator.extra).Nodup := distinct
    rcases keys with none | one
    · simp [Distinct, none, settled.propertyName, extra]
    · simp [Distinct, one, settled.propertyName, settled.mapping, extra]
  exact congrArg Json.object (extend_eq_append whole)

/-- A discriminator is read from what is written of it. -/
theorem ofMembers_eq_ok {members : Members Json} {discriminator : Option Discriminator}
    (settled : ∀ own, discriminator = some own → own.Settled ∧ own.DistinctKeys)
    (written : get? "discriminator" members = discriminator.map toJson) :
    ofMembers members = .ok discriminator := by
  rw [ofMembers, Keyword.text, written]
  cases discriminator with
  | none => rfl
  | some own =>
      rcases settled own rfl with ⟨apart, distinct⟩
      rw [Option.map_some, toJson_eq apart distinct.extra.1]
      rcases own with ⟨propertyName, mapping, extra⟩
      rcases apart with ⟨noName, noMapping⟩
      have rest : erase "propertyName" (mappingMember mapping ++ extra) =
          mappingMember mapping ++ extra := by
        apply erase_of_not_mem
        unfold mappingMember
        split <;> simpa using noName
      have others : erase "mapping" (mappingMember mapping ++ extra) = extra := by
        have dropped : erase "mapping" (mappingMember mapping) = [] := by
          unfold mappingMember
          split <;> simp [erase]
        have kept : erase "mapping" extra = extra := erase_of_not_mem noMapping
        rw [erase, List.filter_append, ← erase, ← erase, dropped, kept, List.nil_append]
      have found : get? "mapping" (mappingMember mapping ++ extra) =
          if mapping.isEmpty then none else some (.object (mapValues .string mapping)) := by
        rw [get?_append, get?_eq_none_iff.mpr noMapping, Option.or_none]
        cases mapping <;> simp [mappingMember, mapValues, get?_cons]
      have text : (some (Json.string propertyName)).bind Json.string? = some propertyName := rfl
      simp only [takeAs, get?_cons, if_true, text, erase_cons, rest, take, found, others]
      cases mapping with
      | nil => rfl
      | cons first later =>
          have entries := entries_mapValues (first :: later)
          simp only [List.isEmpty_cons, Bool.false_eq_true, if_false, entries]

end Discriminator

end SchemaLift