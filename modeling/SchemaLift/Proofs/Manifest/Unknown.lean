import SchemaLift.Manifest.Reader
import SchemaLift.Proofs.Members.Sorted

/-!
# Options that are not known

The settings of all options are turned into texts before any name is looked at. So an option whose
name is not known can be ignored only if its setting means a text, or if an earlier setting is
refused in any case (`Manifest.toConfig_withOption_iff`). Where the names are looked at, it is
passed over (`Options.assignAll_insert`). The options have to be in key order, and they are so in
manifests that have been read, with whatever is laid over them
(`Manifest.toConfig_withOption_of_ofText?`).
-/

namespace SchemaLift

namespace Options

variable {key value : String} {options : Options}

/-- An option that is not known is passed over, wherever it stands. -/
theorem assignAll_insert (unknown : OptionName.ofText? key = none) (options : Options)
    (front back : List (String × String)) :
    (assignAll options (front ++ (key, value) :: back)).2 =
      (assignAll options (front ++ back)).2 := by
  induction front generalizing options with
  | nil =>
      rw [List.nil_append, assignAll, unknown]
      rfl
  | cons entry front ih =>
      obtain ⟨name, text⟩ := entry
      rw [List.cons_append, List.cons_append, assignAll, assignAll]
      cases OptionName.ofText? name with
      | none => exact ih options
      | some option =>
          dsimp only
          cases assign? options option text with
          | none => rfl
          | some next => exact ih next

/-- A value that is refused is one of the table. -/
theorem mem_keys_of_assignAll {table : List (String × String)} {invalid : InvalidOption}
    (refused : (assignAll options table).2 = .error invalid) :
    invalid.key ∈ Members.keys table := by
  induction table generalizing options with
  | nil => contradiction
  | cons entry table ih =>
      obtain ⟨name, text⟩ := entry
      rw [Members.keys_cons]
      rw [assignAll] at refused
      split at refused
      · exact List.mem_cons_of_mem _ (ih refused)
      · split at refused
        · exact List.mem_cons_of_mem _ (ih refused)
        · obtain rfl := Except.error.inj refused
          exact List.mem_cons_self

end Options

namespace Config

theorem ofTables_snd (options nameMappings : List (String × String)) :
    (ofTables options nameMappings).2 =
      (Options.assignAll {} options).2.map fun options => { options, nameMappings } :=
  rfl

/-- A table of options with one more that is not known means the same configuration. -/
theorem ofTables_insert {key value : String} (unknown : OptionName.ofText? key = none)
    (front back nameMappings : List (String × String)) :
    (ofTables (front ++ (key, value) :: back) nameMappings).2 =
      (ofTables (front ++ back) nameMappings).2 := by
  rw [ofTables_snd, ofTables_snd, Options.assignAll_insert unknown]

theorem mem_keys_of_ofTables {options nameMappings : List (String × String)}
    {invalid : InvalidOption} (refused : (ofTables options nameMappings).2 = .error invalid) :
    invalid.key ∈ Members.keys options := by
  rw [ofTables_snd] at refused
  cases outcome : (Options.assignAll {} options).2 with
  | ok result =>
      rw [outcome] at refused
      contradiction
  | error own =>
      rw [outcome] at refused
      obtain rfl := Except.error.inj refused
      exact Options.mem_keys_of_assignAll outcome

end Config

namespace Manifest

/-! ## Texts of settings -/

variable {key : String} {setting : Setting} {front back : List (String × Setting)}

theorem texts_append (front back : List (String × Setting)) :
    texts (front ++ back) =
      (texts front).bind fun early => (texts back).map fun late => early ++ late := by
  induction front with
  | nil =>
      rw [List.nil_append]
      cases texts back <;> rfl
  | cons entry front ih =>
      obtain ⟨key, setting⟩ := entry
      rw [List.cons_append, texts, texts, ih]
      cases setting.text? with
      | none => rfl
      | some text =>
          cases texts front with
          | error invalid => rfl
          | ok early => cases texts back <;> rfl

theorem texts_cons {text : String} (means : setting.text? = some text) :
    texts ((key, setting) :: back) = (texts back).map fun late => (key, text) :: late := by
  rw [texts, means]
  cases texts back <;> rfl

theorem keys_of_texts {entries : List (String × Setting)} {table : List (String × String)}
    (mean : texts entries = .ok table) : Members.keys table = Members.keys entries := by
  induction entries generalizing table with
  | nil =>
      obtain rfl := Except.ok.inj mean
      rfl
  | cons entry entries ih =>
      obtain ⟨key, setting⟩ := entry
      cases means : setting.text? with
      | none =>
          rw [texts, means] at mean
          contradiction
      | some text =>
          rw [texts_cons means] at mean
          cases rest : texts entries with
          | error invalid =>
              rw [rest] at mean
              contradiction
          | ok others =>
              rw [rest] at mean
              obtain rfl := Except.ok.inj mean
              rw [Members.keys_cons, Members.keys_cons, ih rest]

/-- Settings are refused if and only if one of them means no text; the refusal names an entry. -/
theorem texts_cases (entries : List (String × Setting)) :
    (∃ table, texts entries = .ok table) ∧ (∀ entry ∈ entries, entry.2.text?.isSome = true) ∨
      ∃ invalid, texts entries = .error invalid ∧ invalid.key ∈ Members.keys entries ∧
        ∃ entry ∈ entries, entry.2.text? = none := by
  induction entries with
  | nil => exact .inl ⟨⟨[], rfl⟩, nofun⟩
  | cons entry entries ih =>
      obtain ⟨key, setting⟩ := entry
      cases means : setting.text? with
      | none =>
          refine .inr ⟨⟨key, setting.description⟩, ?_, List.mem_cons_self,
            (key, setting), List.mem_cons_self, means⟩
          rw [texts, means]
          rfl
      | some text =>
          rw [texts_cons means]
          rcases ih with ⟨⟨table, rest⟩, each⟩ | ⟨invalid, rest, inside, entry, present, none⟩
          · left
            rw [rest]
            refine ⟨⟨_, rfl⟩, List.forall_mem_cons.mpr ⟨?_, each⟩⟩
            rw [means]
            rfl
          · right
            rw [rest]
            exact ⟨invalid, rfl, List.mem_cons_of_mem _ inside, entry,
              List.mem_cons_of_mem _ present, none⟩

/-! ## Configurations -/

variable {manifest : Manifest} {options : List (String × Setting)} {table : List (String × String)}

theorem toConfig_of_texts (mean : texts manifest.options = .ok table) :
    manifest.toConfig.2 = (Config.ofTables table manifest.nameMappings).2.map fun config =>
      { config with generateMetadata := manifest.generateMetadata } := by
  rw [toConfig, mean]

theorem toConfig_of_refused {invalid : InvalidOption}
    (refused : texts manifest.options = .error invalid) :
    manifest.toConfig.2 = .error invalid := by
  rw [toConfig, refused]

/-- A refusal names an entry of the manifest. -/
theorem mem_keys_of_toConfig {invalid : InvalidOption}
    (refused : manifest.toConfig.2 = .error invalid) :
    invalid.key ∈ Members.keys manifest.options := by
  rcases texts_cases manifest.options with ⟨⟨table, mean⟩, -⟩ | ⟨own, refusal, inside, -⟩
  · rw [toConfig_of_texts mean] at refused
    rw [← keys_of_texts mean]
    cases outcome : (Config.ofTables table manifest.nameMappings).2 with
    | ok config =>
        rw [outcome] at refused
        contradiction
    | error own =>
        rw [outcome] at refused
        obtain rfl := Except.error.inj refused
        exact Config.mem_keys_of_ofTables outcome
  · rw [toConfig_of_refused refusal] at refused
    obtain rfl := Except.error.inj refused
    exact inside

section Insertion

variable (split : manifest.options = front ++ back)

include split

/-- With a setting that means a text, an option that is not known makes no difference. -/
theorem toConfig_insert_text (unknown : OptionName.ofText? key = none)
    (means : setting.text?.isSome = true) :
    ({ manifest with options := front ++ (key, setting) :: back } : Manifest).toConfig.2 =
      manifest.toConfig.2 := by
  obtain ⟨text, means⟩ := Option.isSome_iff_exists.mp means
  have whole := texts_append front back
  have more := texts_append front ((key, setting) :: back)
  rw [← split] at whole
  rw [texts_cons means] at more
  cases early : texts front with
  | error invalid =>
      rw [early] at whole more
      rw [toConfig_of_refused whole, toConfig_of_refused more]
  | ok first =>
      cases late : texts back with
      | error invalid =>
          rw [early, late] at whole more
          rw [toConfig_of_refused whole, toConfig_of_refused more]
      | ok others =>
          rw [early, late] at whole more
          rw [toConfig_of_texts whole, toConfig_of_texts more]
          dsimp only
          rw [Config.ofTables_insert unknown]

/-- Behind an entry that is refused nothing makes a difference. -/
theorem toConfig_insert_refused (key : String) (setting : Setting)
    (refused : ∃ entry ∈ front, entry.2.text? = none) :
    ({ manifest with options := front ++ (key, setting) :: back } : Manifest).toConfig.2 =
      manifest.toConfig.2 := by
  have whole := texts_append front back
  have more := texts_append front ((key, setting) :: back)
  rw [← split] at whole
  rcases texts_cases front with ⟨-, each⟩ | ⟨invalid, early, -⟩
  · obtain ⟨entry, inside, none⟩ := refused
    have some := each entry inside
    rw [none] at some
    contradiction
  · rw [early] at whole more
    rw [toConfig_of_refused whole, toConfig_of_refused more]

end Insertion

/-- Behind entries that mean texts, a setting that means none is refused. -/
theorem toConfig_insert_none (manifest : Manifest) (key : String)
    (back : List (String × Setting)) (early : ∀ entry ∈ front, entry.2.text?.isSome = true)
    (none : setting.text? = none) :
    ({ manifest with options := front ++ (key, setting) :: back } : Manifest).toConfig.2 =
      .error ⟨key, setting.description⟩ := by
  have more := texts_append front ((key, setting) :: back)
  rcases texts_cases front with ⟨⟨first, mean⟩, -⟩ | ⟨-, -, -, entry, inside, lacks⟩
  · rw [mean, texts, none] at more
    rw [toConfig_of_refused more]
  · have some := early entry inside
    rw [lacks] at some
    contradiction

/-! ## Key order -/

theorem inKeyOrder_of_tableOf? {α : Type} {read : Yaml.Node Empty → Option α}
    {node : Yaml.Node Empty} {table : Members α} (found : tableOf? read node = some table) :
    Members.InKeyOrder table := by
  rw [tableOf?, Option.bind_eq_bind, Option.bind_eq_some_iff] at found
  obtain ⟨entries, -, found⟩ := found
  rw [Option.bind_eq_bind, Option.bind_eq_some_iff] at found
  obtain ⟨read, -, found⟩ := found
  obtain rfl := Option.some.inj found
  exact Members.inKeyOrder_sorted read

theorem inKeyOrder_withEntry {after : Manifest} {value : Yaml.Node Empty}
    (ordered : Members.InKeyOrder manifest.options)
    (found : manifest.withEntry? key value = some after) : Members.InKeyOrder after.options := by
  unfold withEntry? at found
  split at found
  · obtain ⟨options, read, found⟩ := Option.bind_eq_some_iff.mp found
    obtain rfl := Option.some.inj found
    exact inKeyOrder_of_tableOf? read
  · split at found
    · obtain ⟨names, -, found⟩ := Option.bind_eq_some_iff.mp found
      obtain rfl := Option.some.inj found
      exact ordered
    · split at found
      · obtain ⟨flag, -, found⟩ := Option.bind_eq_some_iff.mp found
        obtain rfl := Option.some.inj found
        exact ordered
      · contradiction

theorem inKeyOrder_withEntries {after : Manifest} {seen : List String}
    {entries : List (Yaml.Node Empty × Yaml.Node Empty)}
    (ordered : Members.InKeyOrder manifest.options)
    (found : manifest.withEntries? seen entries = some after) :
    Members.InKeyOrder after.options := by
  induction entries generalizing manifest seen with
  | nil =>
      obtain rfl := Option.some.inj found
      exact ordered
  | cons entry entries ih =>
      obtain ⟨node, value⟩ := entry
      rw [withEntries?] at found
      obtain ⟨key, -, found⟩ := Option.bind_eq_some_iff.mp found
      split at found
      · contradiction
      · obtain ⟨next, read, found⟩ := Option.bind_eq_some_iff.mp found
        exact ih (inKeyOrder_withEntry ordered read) found

/-- The options of a manifest that was read are in key order. -/
theorem inKeyOrder_of_ofText? {text : String} (found : ofText? text = some manifest) :
    Members.InKeyOrder manifest.options := by
  unfold ofText? at found
  split at found
  · obtain rfl := Option.some.inj found
    exact List.Pairwise.nil
  · obtain ⟨node, -, found⟩ := Option.bind_eq_some_iff.mp found
    cases node with
    | none =>
        obtain rfl := Option.some.inj found
        exact List.Pairwise.nil
    | some node =>
        obtain ⟨entries, -, found⟩ := Option.bind_eq_some_iff.mp found
        have start : Members.InKeyOrder ({} : Manifest).options := List.Pairwise.nil
        exact inKeyOrder_withEntries start found

theorem inKeyOrder_withOverrides (ordered : Members.InKeyOrder manifest.options)
    (options nameMappings : List (String × String)) :
    Members.InKeyOrder (manifest.withOverrides options nameMappings).options :=
  ordered.extendSorted _

/-! ## One more option -/

/-- The manifest with one more option, or with another setting of the option. -/
def withOption (manifest : Manifest) (key : String) (setting : Setting) : Manifest :=
  { manifest with options := Members.setSorted key setting manifest.options }

section Unknown

variable (ordered : Members.InKeyOrder manifest.options)
  (unknown : ∀ option : OptionName, option.text ≠ key)
  (absent : key ∉ Members.keys manifest.options) (setting : Setting)

include ordered unknown absent

/-- An option that is not known is ignored, or it is refused itself: its setting means no text, and
nothing is refused before it. -/
theorem toConfig_withOption_cases :
    (manifest.withOption key setting).toConfig.2 = manifest.toConfig.2 ∧
        (setting.text?.isSome = true ∨
          ∃ entry ∈ manifest.options, entry.1 < key ∧ entry.2.text? = none) ∨
      (manifest.withOption key setting).toConfig.2 = .error ⟨key, setting.description⟩ ∧
        setting.text? = none ∧
          ∀ entry ∈ manifest.options, entry.1 < key → entry.2.text? ≠ none := by
  have nameless : OptionName.ofText? key = none := by
    simpa [OptionName.ofText?] using fun option _ => unknown option
  obtain ⟨front, back, split, set, below, above⟩ := ordered.exists_setSorted absent setting
  have same : manifest.withOption key setting =
      { manifest with options := front ++ (key, setting) :: back } := by
    rw [withOption, set]
  rw [same]
  cases means : setting.text? with
  | some text =>
      have kept := toConfig_insert_text split nameless (by rw [means]; rfl)
      exact .inl ⟨kept, .inl rfl⟩
  | none =>
      by_cases refused : ∃ entry ∈ front, entry.2.text? = none
      · have kept := toConfig_insert_refused split key setting refused
        obtain ⟨entry, inside, lacks⟩ := refused
        have listed : entry ∈ manifest.options := by
          rw [split]
          exact List.mem_append_left _ inside
        exact .inl ⟨kept, .inr ⟨entry, listed, below entry inside, lacks⟩⟩
      · have early : ∀ entry ∈ front, entry.2.text? ≠ none := fun entry inside lacks =>
          refused ⟨entry, inside, lacks⟩
        have gives := toConfig_insert_none manifest key back
          (fun entry inside => Option.isSome_iff_ne_none.mpr (early entry inside)) means
        refine .inr ⟨gives, rfl, fun entry inside smaller => ?_⟩
        rw [split, List.mem_append] at inside
        rcases inside with inside | inside
        · exact early entry inside
        · exact absurd smaller (String.lt_asymm (above entry inside))

theorem toConfig_withOption_eq_iff :
    (manifest.withOption key setting).toConfig.2 = manifest.toConfig.2 ↔
      setting.text?.isSome = true ∨
        ∃ entry ∈ manifest.options, entry.1 < key ∧ entry.2.text? = none := by
  rcases toConfig_withOption_cases ordered unknown absent setting with
    ⟨kept, why⟩ | ⟨gives, lacks, early⟩
  · exact iff_of_true kept why
  · apply iff_of_false
    · intro kept
      rw [gives] at kept
      exact absent (mem_keys_of_toConfig kept.symm)
    · rintro (means | ⟨entry, inside, smaller, none⟩)
      · rw [lacks] at means
        contradiction
      · exact early entry inside smaller none

end Unknown

/-- So it is with the manifests that are read, and with whatever is laid over them. -/
theorem toConfig_withOption_of_ofText? {text : String} (found : ofText? text = some manifest)
    (options nameMappings : List (String × String)) {overridden : Manifest}
    (laid : overridden = manifest.withOverrides options nameMappings)
    (unknown : ∀ option : OptionName, option.text ≠ key)
    (absent : key ∉ Members.keys overridden.options) (setting : Setting) :
    (overridden.withOption key setting).toConfig.2 = overridden.toConfig.2 ↔
      setting.text?.isSome = true ∨
        ∃ entry ∈ overridden.options, entry.1 < key ∧ entry.2.text? = none := by
  have ordered : Members.InKeyOrder overridden.options :=
    laid ▸ inKeyOrder_withOverrides (inKeyOrder_of_ofText? found) options nameMappings
  exact toConfig_withOption_eq_iff ordered unknown absent setting

/-- An option that is not known makes no difference for the configuration or its refusal if and only
if its setting means a text or a smaller key has a setting that means none. Otherwise it is refused
itself. -/
theorem toConfig_withOption_iff (ordered : Members.InKeyOrder manifest.options)
    (unknown : ∀ option : OptionName, option.text ≠ key)
    (absent : key ∉ Members.keys manifest.options) (setting : Setting) :
    ((manifest.withOption key setting).toConfig.2 = manifest.toConfig.2 ↔
      setting.text?.isSome = true ∨
        ∃ entry ∈ manifest.options, entry.1 < key ∧ entry.2.text? = none) ∧
    ((manifest.withOption key setting).toConfig.2 ≠ manifest.toConfig.2 →
      (manifest.withOption key setting).toConfig.2 = .error ⟨key, setting.description⟩) := by
  constructor
  · exact toConfig_withOption_eq_iff ordered unknown absent setting
  · intro differs
    rcases toConfig_withOption_cases ordered unknown absent setting with ⟨kept, _⟩ | ⟨gives, _⟩
    · exact absurd kept differs
    · exact gives

/-- A manifest in which a truth value is neither true nor false. -/
def hesitant : Manifest where
  options := [("ARRAY_ITEM_SUFFIX", .text "_item"), ("SKIP_SCHEMA_REUSE", .text "maybe")]

/-- A list under a key that is not known comes before the truth value, so it is refused instead. -/
theorem hesitant_withOption_iff :
    Members.InKeyOrder hesitant.options ∧ (∀ option : OptionName, option.text ≠ "LEGACY_MODE") ∧
      "LEGACY_MODE" ∉ Members.keys hesitant.options ∧
      ((hesitant.withOption "LEGACY_MODE" (.sequence [])).toConfig.2 = hesitant.toConfig.2 ↔
        (Setting.sequence []).text?.isSome = true ∨
          ∃ entry ∈ hesitant.options, entry.1 < "LEGACY_MODE" ∧ entry.2.text? = none) ∧
      ((hesitant.withOption "LEGACY_MODE" (.sequence [])).toConfig.2 ≠ hesitant.toConfig.2 →
        (hesitant.withOption "LEGACY_MODE" (.sequence [])).toConfig.2 =
          .error ⟨"LEGACY_MODE", (Setting.sequence []).description⟩) := by
  have ordered : Members.InKeyOrder hesitant.options := by
    refine List.pairwise_pair.mpr ?_
    decide
  have unknown : ∀ option : OptionName, option.text ≠ "LEGACY_MODE" := by
    intro option
    cases option <;> decide
  have absent : "LEGACY_MODE" ∉ Members.keys hesitant.options := by decide
  exact ⟨ordered, unknown, absent,
    toConfig_withOption_iff ordered unknown absent (.sequence [])⟩

/-- Two items under a key that is not known, in a manifest with nothing else: the configuration that
there is without them is not made. -/
theorem legacyMode_refused :
    (∀ option : OptionName, option.text ≠ "LEGACY_MODE") ∧
      ({} : Manifest).toConfig.2 = .ok {} ∧
      (({} : Manifest).withOption "LEGACY_MODE" (.sequence [.text "a", .text "b"])).toConfig.2 =
        .error ⟨"LEGACY_MODE", (Setting.sequence [.text "a", .text "b"]).description⟩ := by
  refine ⟨?_, rfl, rfl⟩
  intro option
  cases option <;> decide

end Manifest

end SchemaLift
