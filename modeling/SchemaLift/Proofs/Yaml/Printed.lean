import SchemaLift.Proofs.Json.Within
import SchemaLift.Proofs.Yaml.Steps

/-!
# The tokens of indented JSON text

Indented JSON text stands for the tokens of its value (`Json.tokens`): brackets, commas between, a
key in front of each member. If no text in the value holds what YAML takes for a line break and all
keys are short enough to be recognised (`Json.HasInlineTexts`), the lexer finds these tokens
(`Json.tokens?_pretty`), unless a text holds a character that JSON does not escape and YAML does not
allow (`Json.tokens?_pretty_eq_none`).
-/

namespace SchemaLift

namespace Json

/-! ## Texts and tokens -/

/-- The text of a value itself and the keys of its members. -/
def texts : Json → List String
  | .string text => [text]
  | .object members => Members.keys members
  | _ => []

/-- Texts without a line break, and keys that are short enough for a colon to follow them. -/
def HasInlineTexts (value : Json) : Prop :=
  (∀ text ∈ value.texts, ∀ char ∈ text.toList, Text.KeepsLine char) ∧
    ∀ key ∈ Members.keys value.members, Yaml.byteCount (quote key).toList ≤ 1024

instance (value : Json) : Decidable value.HasInlineTexts :=
  have (text : String) : Decidable (∀ char ∈ text.toList, Text.KeepsLine char) :=
    List.decidableBAll _ _
  inferInstanceAs (Decidable (_ ∧ _))

/-- Texts of characters that are escaped or that YAML allows as they are. -/
def HasAllowedTexts (value : Json) : Prop :=
  ∀ text ∈ value.texts, ∀ char ∈ text.toList, char.toNat < 32 ∨ Yaml.isAllowed char = true

instance (value : Json) : Decidable value.HasAllowedTexts :=
  have (text : String) :
      Decidable (∀ char ∈ text.toList, char.toNat < 32 ∨ Yaml.isAllowed char = true) :=
    List.decidableBAll _ _
  inferInstanceAs (Decidable (∀ text ∈ value.texts, _))

/-- Texts on lines of their own; `separator` stands before the next one. -/
def linesOf (newLine separator : String) : List String → String
  | [] => ""
  | text :: rest => separator ++ newLine ++ text ++ linesOf newLine "," rest

/-- Tokens of items; `separator` stands before the next one. -/
def tokensOf (separator : List Yaml.Token) : List (List Yaml.Token) → List Yaml.Token
  | [] => []
  | tokens :: rest => separator ++ tokens ++ tokensOf [.flowEntry] rest

/-- The text of a member. -/
def memberText (depth : Nat) (member : String × Json) : String :=
  quote member.1 ++ ": " ++ member.2.indented depth

theorem indentedElements_eq (depth : Nat) (separator : String) (elements : List Json) :
    indentedElements depth separator elements =
      linesOf (newLine depth) separator (elements.map (indented depth)) := by
  induction elements generalizing separator with
  | nil => rfl
  | cons element rest ih => rw [indentedElements, ih, List.map_cons, linesOf]

theorem indentedMembers_eq (depth : Nat) (separator : String) (members : Members Json) :
    indentedMembers depth separator members =
      linesOf (newLine depth) separator (members.map (memberText depth)) := by
  induction members generalizing separator with
  | nil => rfl
  | cons member rest ih =>
      rcases member with ⟨key, value⟩
      rw [indentedMembers, ih, List.map_cons, linesOf]
      simp only [memberText, String.append_assoc]

mutual

/-- The tokens of a value. -/
def tokens : Json → List Yaml.Token
  | .array elements =>
    .flowSequenceStart :: (tokensOf [] (elementTokens elements) ++ [.flowSequenceEnd])
  | .object members =>
    .flowMappingStart :: (tokensOf [] (memberTokens members) ++ [.flowMappingEnd])
  | .null => [.scalar "null" .plain]
  | .bool value => [.scalar (if value then "true" else "false") .plain]
  | .number value => [.scalar (numberText value) .plain]
  | .string value => [.scalar value .doubleQuoted]

/-- The tokens of each element of an array. -/
def elementTokens : List Json → List (List Yaml.Token)
  | [] => []
  | element :: rest => element.tokens :: elementTokens rest

/-- The tokens of each member of an object. -/
def memberTokens : List (String × Json) → List (List Yaml.Token)
  | [] => []
  | (key, value) :: rest =>
    (.key :: .scalar key .doubleQuoted :: .value :: value.tokens) :: memberTokens rest

end

theorem white_newLine (depth : Nat) : Yaml.IsWhite (newLine depth).toList := by
  rw [newLine, String.toList_ofList]
  intro char mem
  rcases List.mem_cons.mp mem with rfl | blank
  · exact Or.inr rfl
  · exact Or.inl (List.eq_of_mem_replicate blank)

/-- The text of an array: its elements between brackets. -/
theorem indented_array (depth : Nat) (elements : List Json) :
    ∃ gap, Yaml.IsWhite gap ∧ ((array elements).indented depth).toList =
      '[' :: ((linesOf (newLine (depth + 1)) "" (elements.map (indented (depth + 1)))).toList ++
        (gap ++ [']'])) := by
  cases elements with
  | nil => exact ⟨[], by simp [Yaml.IsWhite], by simp [indented, linesOf]⟩
  | cons element rest =>
      refine ⟨_, white_newLine depth, ?_⟩
      rw [indented, indentedElements_eq]
      · simp
      · simp

/-- The text of an object: its members between braces. -/
theorem indented_object (depth : Nat) (members : Members Json) :
    ∃ gap, Yaml.IsWhite gap ∧ ((object members).indented depth).toList =
      '\x7b' :: ((linesOf (newLine (depth + 1)) "" (members.map (memberText (depth + 1)))).toList ++
        (gap ++ ['\x7d'])) := by
  cases members with
  | nil => exact ⟨[], by simp [Yaml.IsWhite], by simp [indented, linesOf]⟩
  | cons member rest =>
      refine ⟨_, white_newLine depth, ?_⟩
      rw [indented, indentedMembers_eq]
      · simp
      · simp

end Json

namespace Yaml

open Json (linesOf tokensOf)

namespace Lexer

/-! ## Texts in flow -/

/-- Between brackets and in front of a mark that ends a value, a text is read as tokens. Where it
starts with a key, a key must be allowed. -/
def Reads (keyed : Bool) (text : String) (read : List Token) : Prop :=
  ∀ ⦃lexer : Lexer⦄ ⦃flow : Nat⦄ ⦃tokens : List Token⦄ ⦃gap : List Char⦄ ⦃mark : Char⦄
    ⦃rest : List Char⦄, IsWhite gap → EndsValue mark → flow ≠ 0 →
    (keyed = true → lexer.keyAllowed = true) →
    Scanned lexer flow tokens (text.toList ++ (gap ++ mark :: rest)) →
    ∃ after, Reaches lexer after ∧ Scanned after flow (read.reverse ++ tokens) (mark :: rest)

theorem Reads.keyed {text : String} {read : List Token} (reads : Reads false text read) :
    Reads true text read :=
  fun _ _ _ _ _ _ white ends inside _ scanned => reads white ends inside nofun scanned

theorem Reads.word {word : String} (isWord : IsWord word.toList) :
    Reads false word [.scalar word .plain] := by
  intro lexer flow tokens gap mark rest white ends inside _ scanned
  obtain ⟨after, reaches, scalar⟩ := scanned.plain isWord white ends inside
  rw [String.ofList_toList] at scalar
  exact ⟨after, reaches, scalar⟩

theorem Reads.quoted {text : String} (inline : ∀ char ∈ text.toList, Text.KeepsLine char) :
    Reads false (Json.quote text) [.scalar text .doubleQuoted] := by
  intro lexer flow tokens gap mark rest white _ _ _ scanned
  obtain ⟨after, reaches, scalar⟩ := scanned.quoted inline
  exact ⟨after, reaches, (Scanned.gap white).mp scalar⟩

theorem Reads.member {key value : String} {read : List Token}
    (inline : ∀ char ∈ key.toList, Text.KeepsLine char)
    (short : byteCount (Json.quote key).toList ≤ 1024) (reads : Reads false value read) :
    Reads true (Json.quote key ++ ": " ++ value)
      (.key :: .scalar key .doubleQuoted :: .value :: read) := by
  intro lexer flow tokens gap mark rest white ends inside allowed scanned
  have spelled : (Json.quote key ++ ": " ++ value).toList ++ (gap ++ mark :: rest) =
      (Json.quote key).toList ++ ':' :: ' ' :: (value.toList ++ (gap ++ mark :: rest)) := by
    simp
  rw [spelled] at scanned
  obtain ⟨middle, early, inner⟩ := scanned.key inline short inside (allowed rfl)
  obtain ⟨after, late, outer⟩ := reads white ends inside nofun inner
  refine ⟨after, early.trans late, ?_⟩
  simpa using outer

/-- Behind an item stands a comma or the closing bracket. -/
theorem exists_mark {newLine : String} {gap : List Char} (white : IsWhite gap) {mark : Char}
    (ends : EndsValue mark) (texts : List String) (rest : List Char) :
    ∃ blank next more, IsWhite blank ∧ EndsValue next ∧
      (linesOf newLine "," texts).toList ++ (gap ++ mark :: rest) = blank ++ next :: more := by
  cases texts with
  | nil => exact ⟨gap, mark, rest, white, ends, by simp [linesOf]⟩
  | cons text texts =>
      exact ⟨[], ',', _, by simp [IsWhite], Or.inl rfl, by
        simp only [linesOf, String.toList_append, List.append_assoc, List.nil_append]
        rfl⟩

/-- What stands between two items, or in front of the first one. -/
def IsSeparator (lexer : Lexer) (separator : String) (read : List Token) : Prop :=
  separator = "" ∧ read = [] ∧ lexer.keyAllowed = true ∨ separator = "," ∧ read = [.flowEntry]

/-- Items on lines of their own are read one after the other. -/
theorem Scanned.items {newLine : String} (blank : IsWhite newLine.toList) {texts : List String}
    {reads : List (List Token)} (each : List.Forall₂ (Reads true) texts reads) {lexer : Lexer}
    {flow : Nat} {tokens : List Token} {gap : List Char} {mark : Char} {rest : List Char}
    {separator : String} {between : List Token} (white : IsWhite gap) (ends : EndsValue mark)
    (inside : flow ≠ 0) (isSeparator : lexer.IsSeparator separator between)
    (scanned : Scanned lexer flow tokens
      ((linesOf newLine separator texts).toList ++ (gap ++ mark :: rest))) :
    ∃ after, Reaches lexer after ∧
      Scanned after flow ((tokensOf between reads).reverse ++ tokens) (mark :: rest) := by
  induction each generalizing lexer tokens separator between with
  | nil => exact ⟨lexer, .refl lexer, (Scanned.gap white).mp scanned⟩
  | @cons text read texts reads first _ ih =>
      obtain ⟨skipped, next, more, skippedWhite, nextEnds, tail⟩ :=
        exists_mark white ends texts rest
      -- The separator, if there is one.
      obtain ⟨here, early, item, allowed⟩ : ∃ here, Reaches lexer here ∧
          Scanned here flow (between.reverse ++ tokens)
            (newLine.toList ++ (text.toList ++ (skipped ++ next :: more))) ∧
          here.keyAllowed = true := by
        rw [linesOf, String.toList_append, String.toList_append, String.toList_append,
          List.append_assoc, List.append_assoc, List.append_assoc, tail] at scanned
        rcases isSeparator with ⟨rfl, rfl, allowed⟩ | ⟨rfl, rfl⟩
        · exact ⟨lexer, .refl lexer, scanned, allowed⟩
        · exact Scanned.flowEntry scanned
      obtain ⟨middle, late, done⟩ := first skippedWhite nextEnds inside (fun _ => allowed)
        ((Scanned.gap blank).mp item)
      obtain ⟨after, last, all⟩ := ih (Or.inr ⟨rfl, rfl⟩)
        (tail ▸ (Scanned.gap skippedWhite).mpr done)
      refine ⟨after, early.trans (late.trans last), ?_⟩
      simpa [tokensOf] using all

/-- The brackets around the items of an array or an object. -/
def IsBracket (opening closing : Char) (start last : Token) : Prop :=
  opening = '[' ∧ closing = ']' ∧ start = .flowSequenceStart ∧ last = .flowSequenceEnd ∨
    opening = '\x7b' ∧ closing = '\x7d' ∧ start = .flowMappingStart ∧ last = .flowMappingEnd

/-- Items between brackets are read one after the other, whatever follows them. -/
theorem Scanned.collection {opening closing : Char} {start last : Token}
    (bracket : IsBracket opening closing start last) {newLine : String}
    (blank : IsWhite newLine.toList) {texts : List String} {reads : List (List Token)}
    (each : List.Forall₂ (Reads true) texts reads) {lexer : Lexer} {flow : Nat}
    {tokens : List Token} {gap rest : List Char} (white : IsWhite gap)
    (scanned : Scanned lexer flow tokens
      (opening :: ((linesOf newLine "" texts).toList ++ (gap ++ closing :: rest)))) :
    ∃ after, Reaches lexer after ∧
      Scanned after flow ((start :: (tokensOf [] reads ++ [last])).reverse ++ tokens) rest := by
  have opens : opening = '[' ∧ start = .flowSequenceStart ∨
      opening = '\x7b' ∧ start = .flowMappingStart :=
    bracket.imp (fun square => ⟨square.1, square.2.2.1⟩) fun curly => ⟨curly.1, curly.2.2.1⟩
  have closes : closing = ']' ∧ last = .flowSequenceEnd ∨
      closing = '\x7d' ∧ last = .flowMappingEnd :=
    bracket.imp (fun square => ⟨square.2.1, square.2.2.2⟩) fun curly => ⟨curly.2.1, curly.2.2.2⟩
  have ends : EndsValue closing := by
    rcases closes with ⟨rfl, -⟩ | ⟨rfl, -⟩
    · exact Or.inr (Or.inl rfl)
    · exact Or.inr (Or.inr rfl)
  obtain ⟨opened, early, inner, allowed⟩ := scanned.openFlow opens
  obtain ⟨filled, late, items⟩ := inner.items blank each white ends (Nat.succ_ne_zero flow)
    (Or.inl ⟨rfl, rfl, allowed⟩)
  obtain ⟨after, final, closed⟩ := items.closeFlow closes
  refine ⟨after, early.trans (late.trans final), ?_⟩
  simpa using closed

theorem isWord_null : IsWord "null".toList :=
  ⟨List.all_eq_true.mp (by decide), 'n', _, rfl, by decide, Or.inl (by decide)⟩

theorem isWord_bool (value : Bool) : IsWord (if value then "true" else "false").toList := by
  cases value with
  | true => exact ⟨List.all_eq_true.mp (by decide), 't', _, rfl, by decide, Or.inl (by decide)⟩
  | false => exact ⟨List.all_eq_true.mp (by decide), 'f', _, rfl, by decide, Or.inl (by decide)⟩

theorem isWord_number (number : Number) : IsWord (Json.numberText number).toList := by
  obtain ⟨negative, first, rest, spelled, digit, others⟩ := Scalar.isNumberText_numberText number
  have plain {char : Char} (own : Scalar.isNumberChar char = true) : isPlainChar char = true := by
    simp only [Scalar.isNumberChar, Bool.or_eq_true, decide_eq_true_eq] at own
    rcases own with (((digit | rfl) | rfl) | rfl) | rfl
    · simp [isPlainChar, Char.isAlphanum, digit]
    all_goals rfl
  refine ⟨fun char mem => plain ((Scalar.isNumberText_numberText number).all char mem), ?_⟩
  have noDash : first ≠ '-' := by
    rintro rfl
    cases digit
  have noPoint : first ≠ '.' := by
    rintro rfl
    cases digit
  rw [spelled]
  cases negative with
  | true => exact ⟨'-', first :: rest, rfl, by decide, Or.inr ⟨first, rest, rfl, noDash⟩⟩
  | false => exact ⟨first, rest, rfl, noPoint, Or.inl noDash⟩

/-- What holds between the text and the tokens of each item holds between all of them in order. -/
theorem forall₂_map {α : Type} {related : String → List Token → Prop} {text : α → String}
    {read : α → List Token} {items : List α} (each : ∀ item ∈ items, related (text item) (read item)) :
    List.Forall₂ related (items.map text) (items.map read) := by
  rw [List.forall₂_map_left_iff, List.forall₂_map_right_iff, List.forall₂_same]
  exact each

end Lexer

end Yaml

/-! ## Values -/

namespace Json

open Yaml Lexer

theorem elementTokens_eq (elements : List Json) : elementTokens elements = elements.map tokens := by
  induction elements with
  | nil => rfl
  | cons element rest ih => rw [elementTokens, ih, List.map_cons]

theorem memberTokens_eq (members : Members Json) :
    memberTokens members = members.map fun member =>
      .key :: .scalar member.1 .doubleQuoted :: .value :: member.2.tokens := by
  induction members with
  | nil => rfl
  | cons member rest ih =>
      rcases member with ⟨key, value⟩
      rw [memberTokens, ih, List.map_cons]

section Collections

variable {lexer : Lexer} {flow depth : Nat} {before : List Token} {rest : List Char}

theorem scanned_array {elements : List Json}
    (each : ∀ element ∈ elements, ∀ depth, Reads false (element.indented depth) element.tokens)
    (scanned : Scanned lexer flow before (((array elements).indented depth).toList ++ rest)) :
    ∃ after, Reaches lexer after ∧
      Scanned after flow ((array elements).tokens.reverse ++ before) rest := by
  obtain ⟨gap, white, spelled⟩ := indented_array depth elements
  have items : List.Forall₂ (Reads true) (elements.map (indented (depth + 1)))
      (elements.map tokens) :=
    forall₂_map fun element inside => (each element inside (depth + 1)).keyed
  rw [tokens, elementTokens_eq]
  refine Scanned.collection (Or.inl ⟨rfl, rfl, rfl, rfl⟩) (white_newLine (depth + 1)) items white ?_
  simpa [spelled] using scanned

theorem scanned_object {members : Members Json}
    (inline : (object members).HasInlineTexts)
    (each : ∀ key value, (key, value) ∈ members →
      ∀ depth, Reads false (value.indented depth) value.tokens)
    (scanned : Scanned lexer flow before (((object members).indented depth).toList ++ rest)) :
    ∃ after, Reaches lexer after ∧
      Scanned after flow ((object members).tokens.reverse ++ before) rest := by
  obtain ⟨gap, white, spelled⟩ := indented_object depth members
  have items : List.Forall₂ (Reads true) (members.map (memberText (depth + 1)))
      (members.map fun member =>
        .key :: .scalar member.1 .doubleQuoted :: .value :: member.2.tokens) := by
    refine forall₂_map fun member inside => ?_
    have key := Members.mem_keys_of_mem inside
    exact .member (inline.1 member.1 key) (inline.2 member.1 key)
      (each member.1 member.2 inside (depth + 1))
  rw [tokens, memberTokens_eq]
  refine Scanned.collection (Or.inr ⟨rfl, rfl, rfl, rfl⟩) (white_newLine (depth + 1)) items white ?_
  simpa [spelled] using scanned

end Collections

/-- The text of a value is read as the tokens of the value. -/
theorem reads_indented {value : Json} (inline : ∀ inner ∈ value.within, inner.HasInlineTexts)
    (depth : Nat) : Reads false (value.indented depth) value.tokens := by
  induction value using induction generalizing depth with
  | step value ih =>
      obtain ⟨own, below⟩ := forall_within_iff.mp inline
      cases value with
      | null => exact .word isWord_null
      | bool value =>
          cases value with
          | true => exact .word (isWord_bool true)
          | false => exact .word (isWord_bool false)
      | number value => exact .word (isWord_number value)
      | string value => exact .quoted (own.1 value List.mem_cons_self)
      | array elements =>
          intro lexer flow before gap mark rest white _ _ _ scanned
          obtain ⟨after, reaches, all⟩ := scanned_array
            (fun element inside => ih element inside (below element inside)) scanned
          exact ⟨after, reaches, (Scanned.gap white).mp all⟩
      | object members =>
          intro lexer flow before gap mark rest white _ _ _ scanned
          obtain ⟨after, reaches, all⟩ := scanned_object own (fun key value present =>
            have inside : value ∈ (object members).parts := List.mem_map_of_mem present
            ih value inside (below value inside)) scanned
          exact ⟨after, reaches, (Scanned.gap white).mp all⟩

/-! ## Allowed characters -/

/-- Whether YAML allows all characters of a text. -/
def IsAllowedText (text : String) : Prop :=
  ∀ char ∈ text.toList, isAllowed char = true

instance (text : String) : Decidable (IsAllowedText text) :=
  List.decidableBAll _ _

theorem isAllowedText_append {left right : String} :
    IsAllowedText (left ++ right) ↔ IsAllowedText left ∧ IsAllowedText right := by
  rw [IsAllowedText, String.toList_append, List.forall_mem_append]
  rfl

theorem isAllowed_white {gap : List Char} (white : IsWhite gap) :
    ∀ char ∈ gap, isAllowed char = true := by
  intro char mem
  rcases white char mem with rfl | rfl <;> rfl

theorem isAllowedText_linesOf {newLine separator : String} {texts : List String}
    (white : IsWhite newLine.toList) (mark : IsAllowedText separator) :
    IsAllowedText (linesOf newLine separator texts) ↔ ∀ text ∈ texts, IsAllowedText text := by
  induction texts generalizing separator with
  | nil => exact ⟨nofun, nofun⟩
  | cons text texts ih =>
      have comma : IsAllowedText "," := by decide
      have blank : IsAllowedText newLine := isAllowed_white white
      simp [linesOf, isAllowedText_append, mark, blank, ih comma]

theorem isAllowed_hexDigit (value : Nat) : isAllowed (hexDigit value) = true := by
  have all : ∀ digit < 16, isAllowed (Nat.digitChar digit) = true := by decide
  exact all _ (Nat.mod_lt _ (by decide))

theorem isAllowed_escape (char : Char) :
    (∀ other ∈ escape char, isAllowed other = true) ↔ char.toNat < 32 ∨ isAllowed char = true := by
  unfold escape
  split
  any_goals
    rw [← List.all_eq_true]
    decide
  split_ifs with backspace formFeed control
  · simp [backspace]
    decide
  · simp [formFeed]
    decide
  · simp [isAllowed_hexDigit, control]
    decide
  · simp [control]

theorem isAllowedText_quote (text : String) :
    IsAllowedText (quote text) ↔
      ∀ char ∈ text.toList, char.toNat < 32 ∨ isAllowed char = true := by
  have mark : isAllowed '"' = true := rfl
  rw [IsAllowedText, quote, String.toList_ofList, List.forall_mem_cons, List.forall_mem_append]
  simp only [mark, true_and, List.mem_singleton, forall_eq, and_true, List.mem_flatMap,
    ← isAllowed_escape]
  constructor
  · intro all char own other mem
    exact all other ⟨char, own, mem⟩
  · rintro all other ⟨char, own, mem⟩
    exact all char own other mem

theorem isAllowedText_word {word : String} (isWord : IsWord word.toList) : IsAllowedText word := by
  intro char mem
  have plain := isWord.plain char mem
  simp only [isPlainChar, Bool.or_eq_true, decide_eq_true_eq] at plain
  rcases plain with ((alphanumeric | rfl) | rfl) | rfl
  · have codes : (65 ≤ char.toNat ∧ char.toNat ≤ 90 ∨ 97 ≤ char.toNat ∧ char.toNat ≤ 122) ∨
        48 ≤ char.toNat ∧ char.toNat ≤ 57 := by
      rcases (Bool.or_eq_true _ _).mp alphanumeric with letter | digit
      · rcases (Bool.or_eq_true _ _).mp letter with upper | lower
        · exact .inl (.inl (of_decide_eq_true upper))
        · have both := (Bool.and_eq_true _ _).mp lower
          exact .inl (.inr (both.imp of_decide_eq_true of_decide_eq_true))
      · exact .inr (Char.isDigit_iff_toNat.mp digit)
    simp only [isAllowed, Bool.or_eq_true, Bool.and_eq_true, decide_eq_true_eq]
    omega
  all_goals rfl

theorem isAllowedText_collection {opening closing : Char} {text : String} {depth : Nat}
    {texts : List String} (marks : isAllowed opening = true ∧ isAllowed closing = true)
    (spelled : ∃ gap, IsWhite gap ∧ text.toList =
      opening :: ((linesOf (newLine depth) "" texts).toList ++ (gap ++ [closing]))) :
    IsAllowedText text ↔ ∀ inner ∈ texts, IsAllowedText inner := by
  obtain ⟨gap, white, spelled⟩ := spelled
  have lines : IsAllowedText (linesOf (newLine depth) "" texts) ↔ _ :=
    isAllowedText_linesOf (white_newLine depth) (by decide)
  rw [← lines, IsAllowedText, spelled, List.forall_mem_cons, List.forall_mem_append,
    List.forall_mem_append]
  simp only [marks, true_and, List.mem_singleton, forall_eq, and_true]
  exact ⟨And.left, fun all => ⟨all, isAllowed_white white⟩⟩

theorem isAllowedText_memberText (depth : Nat) (member : String × Json) :
    IsAllowedText (memberText depth member) ↔
      (∀ char ∈ member.1.toList, char.toNat < 32 ∨ isAllowed char = true) ∧
        IsAllowedText (member.2.indented depth) := by
  have colon : IsAllowedText ": " := by decide
  rw [memberText, isAllowedText_append, isAllowedText_append, isAllowedText_quote]
  simp only [colon, and_true]

/-- The text of a value is allowed if and only if all texts in the value are. -/
theorem isAllowedText_indented (value : Json) (depth : Nat) :
    IsAllowedText (value.indented depth) ↔ ∀ inner ∈ value.within, inner.HasAllowedTexts := by
  induction value using induction generalizing depth with
  | step value ih =>
      rw [forall_within_iff]
      cases value with
      | null => exact iff_of_true (isAllowedText_word isWord_null) ⟨nofun, nofun⟩
      | bool value =>
          refine iff_of_true (isAllowedText_word ?_) ⟨nofun, nofun⟩
          cases value with
          | true => exact isWord_bool true
          | false => exact isWord_bool false
      | number value =>
          exact iff_of_true (isAllowedText_word (isWord_number value)) ⟨nofun, nofun⟩
      | string value =>
          refine (isAllowedText_quote value).trans ⟨fun all => ⟨?_, nofun⟩, fun both => ?_⟩
          · exact List.forall_mem_singleton.mpr all
          · exact both.1 value List.mem_cons_self
      | array elements =>
          rw [isAllowedText_collection ⟨rfl, rfl⟩ (indented_array depth elements),
            List.forall_mem_map]
          refine ⟨fun all => ⟨nofun, fun element inside => ?_⟩, fun both element inside => ?_⟩
          · exact (ih element inside (depth + 1)).mp (all element inside)
          · exact (ih element inside (depth + 1)).mpr (both.2 element inside)
      | object members =>
          rw [isAllowedText_collection ⟨rfl, rfl⟩ (indented_object depth members),
            List.forall_mem_map, HasAllowedTexts, texts, Members.keys, List.forall_mem_map, parts,
            List.forall_mem_map]
          simp only [isAllowedText_memberText]
          refine ⟨fun all => ⟨fun member inside => (all member inside).1, fun member inside => ?_⟩,
            fun both member inside => ⟨both.1 member inside, ?_⟩⟩
          · exact (ih member.2 (List.mem_map_of_mem inside) (depth + 1)).mp (all member inside).2
          · exact (ih member.2 (List.mem_map_of_mem inside) (depth + 1)).mpr (both.2 member inside)

theorem isAllowedText_pretty (value : Json) :
    IsAllowedText (value.pretty ++ "\n") ↔ ∀ inner ∈ value.within, inner.HasAllowedTexts := by
  have feed : IsAllowedText "\n" := by decide
  rw [isAllowedText_append, pretty, isAllowedText_indented]
  simp only [feed, and_true]

/-- A value with a character that JSON does not escape and YAML does not allow has no tokens. -/
theorem tokens?_pretty_eq_none {value : Json}
    (forbidden : ¬ ∀ inner ∈ value.within, inner.HasAllowedTexts) :
    tokens? (value.pretty ++ "\n") = none := by
  rw [← isAllowedText_pretty, IsAllowedText, ← List.all_eq_true] at forbidden
  rw [tokens?, glyphs?, if_neg forbidden]
  rfl

/-- The text of an object is made of the tokens of the object. -/
theorem tokens?_pretty {members : Members Json}
    (inline : ∀ inner ∈ (object members).within, inner.HasInlineTexts)
    (allowed : ∀ inner ∈ (object members).within, inner.HasAllowedTexts) :
    tokens? ((object members).pretty ++ "\n") = some (object members).tokens := by
  have input : glyphs? ((object members).pretty ++ "\n") =
      some (place 0 0 0 (((object members).indented 0).toList ++ ['\n'])) := by
    rw [glyphs?, if_pos (List.all_eq_true.mpr ((isAllowedText_pretty _).mpr allowed)),
      String.toList_append]
    rfl
  have start : Scanned (Lexer.start (place 0 0 0 (((object members).indented 0).toList ++ ['\n'])))
      0 [] (((object members).indented 0).toList ++ ['\n']) :=
    ⟨place_trim 0 0 0 _, rfl, rfl, by simp [Lexer.start], rfl, rfl⟩
  obtain ⟨own, below⟩ := forall_within_iff.mp inline
  obtain ⟨after, ⟨steps, few, same⟩, scanned⟩ := scanned_object own (fun key value present =>
    have inside : value ∈ (object members).parts := List.mem_map_of_mem present
    reads_indented (below value inside)) start
  have spaced : Scanned after 0 ((object members).tokens.reverse ++ []) (['\n'] ++ []) := scanned
  have finished := (Scanned.gap (by simp [IsWhite])).mp spaced
  rw [tokens?, input, Option.bind_eq_bind, Option.bind_some]
  obtain ⟨more, enough⟩ := Nat.exists_eq_add_of_le ((Nat.le_add_right ..).trans few)
  change Lexer.run (List.length (Lexer.start _).input + 1) _ = _
  rw [enough, Nat.add_assoc, same, finished.finish, List.append_nil, List.reverse_reverse]

end Json

end SchemaLift
