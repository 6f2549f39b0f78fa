import SchemaLift.Flatten.Naming
import SchemaLift.Proofs.Flatten.Registry

/-!
# Characters of names

A name that is made here has name characters only, and so has what the registry puts behind a base
name that is taken. Any other character of a component name was asked for by the configuration.
-/

namespace SchemaLift

theorem Text.holds_iff {mark : Char} {text : String} :
    Text.holds mark text = true ↔ mark ∈ text.toList := by
  simp [Text.holds]

namespace Naming

theorem isNameChar_of_isDigit {char : Char} (digit : char.isDigit = true) :
    isNameChar char = true := by
  simp [isNameChar, Char.isAlphanum, digit]

/-- A sanitized text has name characters only. -/
theorem isNameChar_of_mem_sanitize {text : String} {char : Char}
    (inside : char ∈ (sanitize text).toList) : isNameChar char = true := by
  have chars : ∀ char ∈ text.toList.map fun char => if isNameChar char then char else '_',
      isNameChar char = true := by
    intro char present
    rcases List.mem_map.mp present with ⟨original, _, rfl⟩
    by_cases name : isNameChar original = true
    · rw [if_pos name]
      exact name
    · rw [if_neg name]
      decide
  unfold sanitize at inside
  split at inside
  · simp at inside
  · next first rest same =>
      rw [same] at chars
      rw [String.toList_ofList] at inside
      split at inside
      · rcases List.mem_cons.mp inside with rfl | present
        · decide
        · exact chars char present
      · exact chars char inside

/-- A name that is made is a sanitized text, or the one that is chosen where none can be made. -/
theorem synthesized_eq (schema : Schema) (derived : String) :
    synthesized schema derived = fallback ∨ ∃ text, synthesized schema derived = sanitize text := by
  have chosen : ∀ text, (if sanitize text = "" then fallback else sanitize text) = fallback ∨
      ∃ other, (if sanitize text = "" then fallback else sanitize text) = sanitize other := by
    intro text
    by_cases none : sanitize text = ""
    · exact Or.inl (if_pos none)
    · exact Or.inr ⟨text, if_neg none⟩
  exact chosen _

/-- A name that is made has name characters only. -/
theorem isNameChar_of_mem_synthesized {schema : Schema} {derived : String} {char : Char}
    (inside : char ∈ (synthesized schema derived).toList) : isNameChar char = true := by
  rcases synthesized_eq schema derived with same | ⟨text, same⟩
  · have chars : fallback.toList.all isNameChar = true := rfl
    rw [same] at inside
    exact List.all_eq_true.mp chars char inside
  · rw [same] at inside
    exact isNameChar_of_mem_sanitize inside

end Naming

namespace Config

/-- A base name with any other character is one of those that the configuration gives. -/
theorem mem_nameMappings_of_holds {config : Config} {schema : Schema} {derived : String}
    {mark : Char} (other : Naming.isNameChar mark = false)
    (inside : Text.holds mark (config.baseName schema derived).base = true) :
    ∃ name, (name, (config.baseName schema derived).base) ∈ config.nameMappings := by
  rw [Text.holds_iff] at inside
  unfold baseName at inside ⊢
  dsimp only at inside ⊢
  split at inside
  · next base found => exact ⟨_, Members.mem_of_get?_eq_some found⟩
  · rw [Naming.isNameChar_of_mem_synthesized inside] at other
    contradiction

end Config

namespace Registry

/-- A number behind a base name adds name characters only. -/
theorem holds_numbered {mark : Char} (other : Naming.isNameChar mark = false) (base : String)
    (number : Nat) : Text.holds mark (numbered base number) = Text.holds mark base := by
  have digits : mark ∉ Nat.toDigits 10 number := by
    intro present
    rw [Naming.isNameChar_of_isDigit (Nat.isDigit_of_mem_toDigits (by decide) (by decide) present)]
      at other
    contradiction
  have underscore : mark ≠ '_' := by
    rintro rfl
    contradiction
  rw [Bool.eq_iff_iff, Text.holds_iff, Text.holds_iff]
  simp [numbered, digits, underscore]

theorem holds_uniqueName {mark : Char} (other : Naming.isNameChar mark = false)
    (registry : Registry) (base : String) :
    Text.holds mark (registry.uniqueName base) = Text.holds mark base := by
  unfold uniqueName
  split
  · split
    · exact holds_numbered other base _
    · rfl
  · rfl

end Registry

end SchemaLift
