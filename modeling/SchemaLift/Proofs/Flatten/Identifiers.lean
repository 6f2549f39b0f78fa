import Mathlib.Data.List.TakeDrop
import SchemaLift.Proofs.Audit.Resolution
import SchemaLift.Proofs.Flatten.Naming
import SchemaLift.Proofs.Flatten.Registered

/-!
# Identifiers

A name that is made here is an identifier (`Naming.isIdentifier_synthesized`), whatever it is made
of: titles, paths, suffixes and the names of component schemas are sanitized at the end. It stays
one when the registry puts a number behind it, and it is found again in a pointer, as it is neither
empty nor has a slash.
-/

namespace SchemaLift

/-- A text is cut at a mark that is not in its first part. -/
theorem Text.splitOnce?_eq_some {mark : Char} {text before after : String}
    (cut : text.toList = before.toList ++ mark :: after.toList) (first : mark ∉ before.toList) :
    Text.splitOnce? mark text = some (before, after) := by
  have keeps : ∀ char ∈ before.toList, decide (char ≠ mark) = true := by
    intro char inside
    rw [decide_eq_true_eq]
    rintro rfl
    exact first inside
  have stops : decide (mark ≠ mark) = false := by simp
  unfold Text.splitOnce?
  rw [cut, List.span_eq_takeWhile_dropWhile, List.takeWhile_append_of_pos keeps,
    List.dropWhile_append_of_pos keeps, List.takeWhile_cons, List.dropWhile_cons, stops]
  simp

namespace Naming

/-- A letter or an underscore, and then letters, digits and underscores. Letters are ASCII. -/
def IsIdentifier (name : String) : Prop :=
  ∃ first rest, name.toList = first :: rest ∧ (first.isAlpha = true ∨ first = '_') ∧
    ∀ char ∈ rest, isNameChar char = true

theorem isNameChar_iff {char : Char} :
    isNameChar char = true ↔ (char.isAlpha = true ∨ char = '_') ∨ char.isDigit = true := by
  have parts : char.isAlphanum = true ↔ char.isAlpha = true ∨ char.isDigit = true :=
    Eq.to_iff (Bool.or_eq_true char.isAlpha char.isDigit)
  rw [isNameChar, Bool.or_eq_true, parts, decide_eq_true_eq, or_right_comm]

namespace IsIdentifier

variable {name : String}

theorem isNameChar (identifier : IsIdentifier name) {char : Char} (inside : char ∈ name.toList) :
    Naming.isNameChar char = true := by
  obtain ⟨first, rest, chars, start, others⟩ := identifier
  rw [chars] at inside
  rcases List.mem_cons.mp inside with rfl | inside
  · exact isNameChar_iff.mpr (.inl start)
  · exact others char inside

theorem ne_empty (identifier : IsIdentifier name) : name ≠ "" := by
  rintro rfl
  obtain ⟨first, rest, chars, -⟩ := identifier
  contradiction

theorem append (identifier : IsIdentifier name) {rest : String}
    (chars : ∀ char ∈ rest.toList, Naming.isNameChar char = true) :
    IsIdentifier (name ++ rest) := by
  obtain ⟨first, others, same, start, each⟩ := identifier
  refine ⟨first, others ++ rest.toList, ?_, start, ?_⟩
  · rw [String.toList_append, same, List.cons_append]
  · exact List.forall_mem_append.mpr ⟨each, chars⟩

/-- An identifier is read back from a pointer to the component schema that has it as its name. -/
theorem componentName?_toSchema (identifier : IsIdentifier name) :
    Pointer.componentName? (Pointer.toSchema name) = some name := by
  have slash : Text.holds '/' name = false := by
    rw [← Bool.not_eq_true, Text.holds_iff]
    intro inside
    exact absurd (identifier.isNameChar inside) (by decide)
  have cut : Pointer.toSchema name = Pointer.components ++ ("schemas/" ++ name) := by
    rw [← String.append_assoc]
    rfl
  have split : Text.splitOnce? '/' ("schemas/" ++ name) = some ("schemas", name) := by
    refine Text.splitOnce?_eq_some ?_ (by decide)
    rw [String.toList_append]
    rfl
  rw [Pointer.componentName?, cut, Text.dropLead?_append]
  simp [split, identifier.ne_empty, slash]

end IsIdentifier

/-- A sanitized text is an identifier unless nothing is left of it. -/
theorem isIdentifier_sanitize {text : String} (left : sanitize text ≠ "") :
    IsIdentifier (sanitize text) := by
  have each : ∀ char ∈ (sanitize text).toList, isNameChar char = true :=
    fun char => isNameChar_of_mem_sanitize
  unfold sanitize at left each ⊢
  split at left
  · exact absurd rfl left
  · next first rest same =>
      rw [same] at each
      dsimp only at each ⊢
      rw [String.toList_ofList] at each
      by_cases digit : first.isDigit = true
      · rw [if_pos digit] at each ⊢
        exact ⟨'_', first :: rest, String.toList_ofList, .inr rfl, (List.forall_mem_cons.mp each).2⟩
      · rw [if_neg digit, List.forall_mem_cons] at each
        rw [if_neg digit]
        exact ⟨first, rest, String.toList_ofList, (isNameChar_iff.mp each.1).resolve_right digit,
          each.2⟩

theorem isIdentifier_synthesized (schema : Schema) (derived : String) :
    IsIdentifier (synthesized schema derived) := by
  have chosen (text : String) :
      IsIdentifier (if sanitize text = "" then fallback else sanitize text) := by
    by_cases none : sanitize text = ""
    · rw [if_pos none]
      refine ⟨'i', "nline_schema".toList, rfl, .inl rfl, List.all_eq_true.mp ?_⟩
      decide
    · rw [if_neg none]
      exact isIdentifier_sanitize none
  exact chosen _

end Naming

theorem Config.isIdentifier_baseName {config : Config} {schema : Schema} {derived base : String}
    (made : config.baseName schema derived = ⟨base, false⟩) : Naming.IsIdentifier base := by
  unfold Config.baseName at made
  dsimp only at made
  split at made
  · cases made
  · cases made
    exact Naming.isIdentifier_synthesized schema derived

theorem Registry.isIdentifier_numbered {base : String} (identifier : Naming.IsIdentifier base)
    (number : Nat) : Naming.IsIdentifier (numbered base number) := by
  have digits : ∀ char ∈ (toString number).toList, Naming.isNameChar char = true := by
    intro char inside
    rw [Nat.toString_eq_repr, Nat.toList_repr] at inside
    exact Naming.isNameChar_of_isDigit
      (Nat.isDigit_of_mem_toDigits (by decide) (by decide) inside)
  rw [numbered, String.append_assoc]
  refine identifier.append ?_
  rw [String.toList_append, List.forall_mem_append]
  exact ⟨List.all_eq_true.mp (by decide), digits⟩

/-! ## Extractions -/

/-- The base name was chosen for the shape at some position, and the name is the base name, perhaps
with a number behind it. -/
structure Extraction.Spelled (config : Config) (extraction : Extraction) : Prop where
  chosen : ∃ derived mapped, config.baseName extraction.shape derived = ⟨extraction.base, mapped⟩
  spelling : extraction.name = extraction.base ∨
    ∃ number, extraction.name = Registry.numbered extraction.base number

theorem Extraction.Spelled.isIdentifier {config : Config} {extraction : Extraction}
    (spelled : extraction.Spelled config) {derived : String}
    (made : config.baseName extraction.shape derived = ⟨extraction.base, false⟩) :
    Naming.IsIdentifier extraction.name := by
  have base := Config.isIdentifier_baseName made
  rcases spelled.spelling with same | ⟨number, same⟩
  · rwa [same]
  · rw [same]
    exact Registry.isIdentifier_numbered base number

theorem Registry.Nearest.spelling {taken : List String} {base name : String}
    (nearest : Nearest taken base name) :
    name = base ∨ ∃ number, name = Registry.numbered base number := by
  cases nearest with
  | base => exact .inl rfl
  | numbered => exact .inr ⟨_, rfl⟩

namespace Flatten

variable {config : Config} {document : Document}

/-- What is known of the names in a pass, with how each of them is spelled. -/
structure Spelling (config : Config) (document : Document) (state : State) : Prop where
  registered : Registered document state
  spelled : ∀ extraction ∈ state.extractions, extraction.Spelled config

namespace Spelling

variable {before after : State} {schema : Schema} {derived name : String}

theorem start (config : Config) (distinct : Members.Distinct document.components.schemas) :
    Spelling config document (Flatten.start config document) :=
  ⟨Registered.start config distinct, by simp [Flatten.start]⟩

theorem sameSchemas (state : Spelling config document before) (same : before.SameSchemas after) :
    Spelling config document after :=
  ⟨state.registered.sameSchemas same, by rw [same.extractions]; exact state.spelled⟩

theorem withComponent (state : Spelling config document before) (name : String)
    (content : Schema) : Spelling config document (before.withComponent name content) :=
  ⟨state.registered.withComponent name content, state.spelled⟩

theorem opens (state : Spelling config document before)
    (opens : before.Opens (config.baseName schema derived).base name schema .blank after) :
    Spelling config document after := by
  refine ⟨state.registered.opens opens, fun extraction present => ?_⟩
  rcases opens.mem_extractions_iff.mp present with old | rfl
  · exact state.spelled extraction old
  · refine ⟨⟨derived, _, rfl⟩, ?_⟩
    rw [opens.chosen]
    exact (before.registry.nearest_uniqueName _).spelling

/-- A shape that is shared has the name of an extraction with the same base name, or the base name
itself. -/
theorem shares (state : Spelling config document before)
    (found : before.registry.reusable? (config.baseName schema derived).base schema = some name)
    (shares : before.Shares (config.baseName schema derived).base name schema after) :
    Spelling config document after := by
  refine ⟨state.registered.shares found shares, fun extraction present => ?_⟩
  rw [shares.extractions, List.mem_append, List.mem_singleton] at present
  rcases present with old | rfl
  · exact state.spelled extraction old
  · refine ⟨⟨derived, _, rfl⟩, ?_⟩
    rcases Registry.reusable?_eq_some found with ⟨known, inside, base, -, same⟩ | ⟨same, -⟩
    · have own := (state.spelled known (state.registered.extracted inside)).spelling
      rwa [same, base] at own
    · exact .inl same

end Spelling

/-- The account of how names are spelled in a pass. It says nothing of the schemas. -/
def spelling (config : Config) (document : Document) : Account config where
  Inv := Spelling config document
  Later _ _ := True
  Fits _ _ _ := True
  Becomes _ _ _ _ _ := True
  later_refl _ := trivial
  later_trans _ _ := trivial
  becomes_later _ := id
  sameSchemas state same := ⟨state.sameSchemas same, trivial⟩
  fits_child _ _ := trivial
  reference _ _ _ _ := trivial
  kept _ _ _ _ := trivial
  shared state _ _ _ found shares := ⟨state.shares found shares, trivial, trivial⟩
  opened state _ _ _ opens := state.opens opens
  closed _ _ _ _ ends _ _ _ := ⟨ends.withComponent _ _, trivial, trivial⟩
  taken state _ := state.withComponent _ _
  returned _ _ _ ends _ _ := ⟨ends.withComponent _ _, trivial, id⟩
  fits_again _ _ := trivial
  again _ _ _ := trivial

/-- Every name that a pass registers is given to an extraction, and its base name is one of those
that are chosen for the shape. If the base name is made and not given by the configuration, the
name is an identifier, and pointers to the component lead back to it. -/
theorem flatten_identifiers (config : Config) {document : Document}
    (distinct : Members.Distinct document.components.schemas) :
    ∃ outcome, document.flatten config = .ok outcome ∧
      (∀ name ∈ outcome.report.registered,
        ∃ extraction ∈ outcome.extractions, extraction.name = name) ∧
      ∀ extraction ∈ outcome.extractions,
        (∃ derived mapped,
          config.baseName extraction.shape derived = ⟨extraction.base, mapped⟩) ∧
        ∀ derived, config.baseName extraction.shape derived = ⟨extraction.base, false⟩ →
          Naming.IsIdentifier extraction.name ∧
            Pointer.componentName? (Pointer.toSchema extraction.name) = some extraction.name := by
  have own : document.Related (Keeps fun _ _ => True) document :=
    Document.related_self fun _ _ _ => trivial
  obtain ⟨outcome, after, run, settles, report, extractions⟩ :=
    (spelling config document).flatten (Spelling.start config distinct) distinct own
      fun _ _ _ => trivial
  have state : Spelling config document after := settles.inv
  refine ⟨outcome, run, fun name present => ?_, fun extraction present => ?_⟩
  · rw [report, state.registered.registered, List.mem_map] at present
    obtain ⟨extraction, inside, same⟩ := present
    exact ⟨extraction, extractions ▸ state.registered.extracted inside, same⟩
  · have spelled := state.spelled extraction (extractions ▸ present)
    refine ⟨spelled.chosen, fun derived made => ?_⟩
    have identifier := spelled.isIdentifier made
    exact ⟨identifier, identifier.componentName?_toSchema⟩

/-- The shop's schemas get such names even if the items of arrays are to be named with a suffix that
is no part of an identifier. -/
theorem shop_identifiers :
    Members.Distinct shop.components.schemas ∧
      ∃ outcome, shop.flatten { options := { arrayItemSuffix := "/№ " } } = .ok outcome ∧
        (∀ name ∈ outcome.report.registered,
          ∃ extraction ∈ outcome.extractions, extraction.name = name) ∧
        ∀ extraction ∈ outcome.extractions,
          (∃ derived mapped, Config.baseName { options := { arrayItemSuffix := "/№ " } }
            extraction.shape derived = ⟨extraction.base, mapped⟩) ∧
          ∀ derived, Config.baseName { options := { arrayItemSuffix := "/№ " } }
              extraction.shape derived = ⟨extraction.base, false⟩ →
            Naming.IsIdentifier extraction.name ∧
              Pointer.componentName? (Pointer.toSchema extraction.name) = some extraction.name :=
  ⟨distinctKeys_shop.names, flatten_identifiers _ distinctKeys_shop.names⟩

end Flatten

end SchemaLift
