import Mathlib.Data.List.TakeWhile
import SchemaLift.Proofs.Yaml.Plain
import SchemaLift.Yaml.Token.Lexer

/-!
# Steps of the lexer on JSON text

JSON text stands outside of any block, and its keys need no place of their own. While the lexer is
there (`Lexer.Scanned`), each mark and each scalar is one step that adds its token, and the colon
behind a quoted text makes that text a key (`Lexer.Scanned.key`).
-/

namespace SchemaLift.Yaml.Lexer

/-! ## Runs -/

/-- Running on from the second state is running from the first one, and takes no more steps than
glyphs are read. -/
def Reaches (before after : Lexer) : Prop :=
  ∃ steps, steps + after.input.length ≤ before.input.length ∧
    ∀ fuel, run (steps + fuel) before = run fuel after

theorem Reaches.refl (lexer : Lexer) : Reaches lexer lexer :=
  ⟨0, by simp, fun fuel => by rw [Nat.zero_add]⟩

theorem Reaches.trans {first second third : Lexer} (early : Reaches first second)
    (late : Reaches second third) : Reaches first third := by
  obtain ⟨steps, short, same⟩ := early
  obtain ⟨more, shorter, last⟩ := late
  refine ⟨steps + more, by omega, fun fuel => ?_⟩
  rw [Nat.add_assoc, same, last]

/-- One token is read. -/
theorem Reaches.step {before after : Lexer} (advanced : before.advance = some (false, after))
    (shorter : after.input.length < before.input.length) : Reaches before after := by
  refine ⟨1, by omega, fun fuel => ?_⟩
  rw [Nat.add_comm, run, advanced]
  rfl

/-! ## States -/

/-- What stands behind the white space. -/
def trim (left : List Char) : List Char :=
  left.dropWhile fun char => char = ' ' || char = '\n'

theorem trim_white {gap : List Char} (white : IsWhite gap) (left : List Char) :
    trim (gap ++ left) = trim left :=
  List.dropWhile_append_of_pos (by simpa [IsWhite] using white)

theorem exists_trim (left : List Char) : ∃ gap, IsWhite gap ∧ left = gap ++ trim left := by
  refine ⟨_, fun char mem => ?_, (List.takeWhile_append_dropWhile ..).symm⟩
  simpa using List.mem_takeWhile_imp mem

/-- What is known while JSON text is read: the tokens so far, last first, and the characters that
are left apart from white space. No block is open and no key is required. -/
structure Scanned (lexer : Lexer) (flow : Nat) (tokens : List Token) (left : List Char) :
    Prop where
  input : ∃ gap index line column, IsWhite gap ∧
    lexer.input = place index line column (gap ++ trim left)
  emitted : lexer.tokens = tokens
  count : lexer.count = tokens.length
  free : ∀ candidate, some candidate ∈ lexer.candidates → candidate.required = false
  indentation : lexer.indentation = -1
  brackets : lexer.flow = flow

variable {lexer : Lexer} {flow : Nat} {tokens : List Token} {left : List Char}

/-- White space in front of what is left does not matter. -/
theorem Scanned.gap {gap : List Char} (white : IsWhite gap) :
    Scanned lexer flow tokens (gap ++ left) ↔ Scanned lexer flow tokens left := by
  have same := trim_white white left
  exact ⟨fun scanned => { scanned with input := same ▸ scanned.input },
    fun scanned => { scanned with input := same.symm ▸ scanned.input }⟩

theorem place_trim (index line column : Nat) (left : List Char) :
    ∃ gap index' line' column', IsWhite gap ∧
      place index line column left = place index' line' column' (gap ++ trim left) := by
  obtain ⟨gap, white, same⟩ := exists_trim left
  exact ⟨gap, index, line, column, white, congrArg _ same⟩

/-- A mark that white space ends at. -/
def EndsGap (char : Char) : Prop :=
  IsOrdinary char ∧ char ≠ ' ' ∧ char ≠ '\t' ∧ char ≠ '#' ∧ char ≠ byteOrderMark

instance (char : Char) : Decidable (EndsGap char) :=
  inferInstanceAs (Decidable (_ ∧ _))

theorem trim_mark {char : Char} (ends : EndsGap char) (rest : List Char) :
    trim (char :: rest) = char :: rest := by
  have inline : char ≠ '\n' := by
    rintro rfl
    exact absurd ends.1 (by decide)
  simp [trim, ends.2.1, inline]

theorem skipGap_mark {char : Char} (ends : EndsGap char) (inFlow : Bool) (rest : List Char)
    (keyAllowed : Bool) (index line column : Nat) :
    skipGap inFlow keyAllowed false (place index line column (char :: rest)) =
      (keyAllowed, place index line column (char :: rest)) := by
  obtain ⟨ordinary, space, tab, comment, mark⟩ := ends
  rw [place_cons ordinary, skipGap]
  simp [ordinary.2.2, space, tab, comment, mark]

theorem skipGap_nil (inFlow keyAllowed : Bool) (index line column : Nat) :
    skipGap inFlow keyAllowed false (place index line column []) =
      (keyAllowed, place index line column []) := by
  simp [place, skipGap, isBreak, byteOrderMark]

theorem skipGap_white {gap : List Char} (white : IsWhite gap) {inFlow : Bool} {left : List Char}
    (stops : ∀ keyAllowed index line column,
      skipGap inFlow keyAllowed false (place index line column left) =
        (keyAllowed, place index line column left))
    (keyAllowed : Bool) (index line column : Nat) :
    ∃ keyAllowed' index' line' column', (inFlow = true → keyAllowed' = keyAllowed) ∧
      skipGap inFlow keyAllowed false (place index line column (gap ++ left)) =
        (keyAllowed', place index' line' column' left) := by
  induction gap generalizing keyAllowed index line column with
  | nil => exact ⟨keyAllowed, index, line, column, fun _ => rfl, stops ..⟩
  | cons blank gap ih =>
    rcases List.forall_mem_cons.mp white with ⟨rfl | rfl, others⟩
    · obtain ⟨keyAllowed', index', line', column', same, skipped⟩ :=
        ih others keyAllowed (index + ' '.utf8Size) line (column + 1)
      refine ⟨keyAllowed', index', line', column', same, ?_⟩
      rw [List.cons_append, place_cons (by decide), skipGap, ← skipped]
      simp [isBreak]
    · obtain ⟨keyAllowed', index', line', column', same, skipped⟩ :=
        ih others (keyAllowed || !inFlow) (index + 1) (line + 1) 0
      refine ⟨keyAllowed', index', line', column', ?_, ?_⟩
      · intro flowing
        rw [same flowing, flowing, Bool.not_true, Bool.or_false]
      · rw [List.cons_append, place_break, skipGap, ← skipped]
        simp [isBreak]

theorem length_skipGap (inFlow keyAllowed inComment : Bool) (input : List Glyph) :
    (skipGap inFlow keyAllowed inComment input).2.length ≤ input.length := by
  induction input generalizing keyAllowed inComment with
  | nil => simp [skipGap]
  | cons glyph rest ih =>
    rw [skipGap]
    split_ifs <;> first
      | exact le_rfl
      | exact (ih _ _).trans (Nat.le_succ _)

/-! ## Between two tokens -/

theorem dropStale_eq (here : Glyph) {candidates : List (Option Candidate)}
    (free : ∀ candidate, some candidate ∈ candidates → candidate.required = false) :
    dropStale here candidates =
      some (candidates.map (Option.filter fun candidate => !candidate.isStale here)) := by
  induction candidates with
  | nil => rfl
  | cons candidate candidates ih =>
    have rest := ih fun other mem => free other (List.mem_cons_of_mem _ mem)
    cases candidate with
    | none =>
      rw [dropStale, rest]
      rfl
    | some candidate =>
      have own := free candidate List.mem_cons_self
      rw [dropStale, rest]
      by_cases stale : candidate.isStale here = true
      · simp [stale, own, Option.filter]
      · simp [stale, Option.filter]

theorem unroll_eq (indentation : lexer.indentation = -1) {column : Int} (least : -1 ≤ column) :
    lexer.unroll column = lexer := by
  rw [unroll, closeBlocks, if_pos]
  simp [indentation, least]

/-- The lexer stands at a mark. -/
structure Ready (lexer : Lexer) (flow : Nat) (tokens : List Token) (char : Char)
    (rest : List Char) : Prop where
  scanned : Scanned lexer flow tokens (char :: rest)
  here : ∃ index line column, lexer.input = place index line column (char :: rest)

section Skipping

variable {char : Char} {rest : List Char}

/-- The state in which the next token is looked at. -/
def settled (lexer : Lexer) (keyAllowed : Bool) (input : List Glyph) : Lexer :=
  { lexer with
    keyAllowed, input
    candidates := lexer.candidates.map
      (Option.filter fun candidate => !candidate.isStale (input.headD ⟨'\x00', 0, 0, 0⟩)) }

/-- For the next token white space is skipped and candidates that are out of time are forgotten. -/
theorem Scanned.advance_eq (scanned : Scanned lexer flow tokens left) {keyAllowed : Bool}
    {input : List Glyph}
    (skipped : skipGap lexer.inFlow lexer.keyAllowed false lexer.input = (keyAllowed, input)) :
    lexer.advance = (lexer.settled keyAllowed input).token := by
  rw [advance, skipped]
  dsimp only [Option.bind_eq_bind]
  rw [dropStale_eq _ scanned.free, Option.bind_some, unroll_eq]
  · rfl
  · exact scanned.indentation
  · omega

theorem Scanned.settled (scanned : Scanned lexer flow tokens left) (keyAllowed : Bool)
    (index line column : Nat) (right : List Char) :
    Scanned (lexer.settled keyAllowed (place index line column right)) flow tokens right := by
  refine { scanned with
    input := place_trim index line column right
    free := fun candidate mem => scanned.free candidate ?_ }
  obtain ⟨old, oldMem, same⟩ := List.mem_map.mp mem
  rw [(Option.filter_eq_some_iff.mp same).1] at oldMem
  exact oldMem

/-- The lexer goes on with the next mark. -/
theorem Scanned.skip (scanned : Scanned lexer flow tokens (char :: rest)) (ends : EndsGap char) :
    ∃ next, lexer.advance = next.token ∧ Ready next flow tokens char rest ∧
      (flow ≠ 0 → next.keyAllowed = lexer.keyAllowed) ∧
      next.input.length ≤ lexer.input.length := by
  obtain ⟨gap, index, line, column, white, input⟩ := scanned.input
  rw [trim_mark ends] at input
  obtain ⟨keyAllowed, index', line', column', same, skipped⟩ :=
    skipGap_white white (skipGap_mark ends lexer.inFlow rest) lexer.keyAllowed index line column
  rw [← input] at skipped
  refine ⟨_, scanned.advance_eq skipped,
    ⟨scanned.settled keyAllowed index' line' column' _, index', line', column', rfl⟩, ?_, ?_⟩
  · intro flowing
    apply same
    rw [inFlow, scanned.brackets]
    simpa using flowing
  · have shorter := length_skipGap lexer.inFlow lexer.keyAllowed false lexer.input
    rw [skipped] at shorter
    exact shorter

/-- What holds behind every token that can be read at a mark is reached. -/
theorem Scanned.step (scanned : Scanned lexer flow tokens (char :: rest)) (ends : EndsGap char)
    {reached : Lexer → Prop}
    (read : ∀ next, Ready next flow tokens char rest →
      (flow ≠ 0 → next.keyAllowed = lexer.keyAllowed) →
      ∃ after, next.token = some (false, after) ∧ after.input.length < next.input.length ∧
        reached after) :
    ∃ after, Reaches lexer after ∧ reached after := by
  obtain ⟨next, same, ready, keyAllowed, shorter⟩ := scanned.skip ends
  obtain ⟨after, token, less, holds⟩ := read next ready keyAllowed
  exact ⟨after, .step (same.trans token) (less.trans_le shorter), holds⟩

end Skipping

/-! ## Candidates -/

/-- With other candidates, none of which is required. -/
theorem Scanned.withCandidates (scanned : Scanned lexer flow tokens left)
    {candidates : List (Option Candidate)}
    (free : ∀ candidate, some candidate ∈ candidates → candidate.required = false) :
    Scanned { lexer with candidates } flow tokens left :=
  { scanned with free }

theorem Scanned.dropCandidate_eq (scanned : Scanned lexer flow tokens left) :
    ∃ candidates, lexer.dropCandidate = some { lexer with candidates } ∧
      Scanned { lexer with candidates } flow tokens left := by
  have free := scanned.free
  unfold dropCandidate
  split
  · next candidate rest candidates =>
      rw [candidates] at free
      rw [if_neg (by simp [free candidate List.mem_cons_self])]
      exact ⟨none :: rest, rfl, scanned.withCandidates fun other mem =>
        free other (List.mem_cons_of_mem _ (by simpa using mem))⟩
  · exact ⟨lexer.candidates, rfl, scanned⟩

/-- The candidate for a key that starts here. -/
def candidate (lexer : Lexer) : Candidate :=
  ⟨lexer.count, false, lexer.here.index, lexer.here.line, lexer.here.column⟩

theorem Scanned.noteCandidate_eq (scanned : Scanned lexer flow tokens left) :
    ∃ candidates, lexer.noteCandidate = some { lexer with candidates } ∧
      Scanned { lexer with candidates } flow tokens left ∧
      (lexer.keyAllowed = true → candidates.head? = some (some lexer.candidate)) := by
  unfold noteCandidate
  split
  · next allowed =>
      have optional : (!lexer.inFlow && decide (lexer.indentation = (lexer.here.column : Int))) =
          false := by
        rw [scanned.indentation, decide_eq_false (by omega), Bool.and_false]
      obtain ⟨candidates, dropped, others⟩ := scanned.dropCandidate_eq
      refine ⟨some lexer.candidate :: candidates.drop 1, ?_, scanned.withCandidates ?_,
        fun _ => rfl⟩
      · simp only [optional, dropped]
        rfl
      · intro other mem
        rcases List.mem_cons.mp mem with same | mem
        · obtain rfl := Option.some.inj same
          rfl
        · exact others.free other (List.mem_of_mem_drop mem)
  · next forbidden =>
      exact ⟨lexer.candidates, rfl, scanned, fun allowed => absurd allowed forbidden⟩

/-! ## Marks -/

section Marks

variable {char : Char} {rest : List Char}

theorem Ready.here_eq (ready : Ready lexer flow tokens char rest) (ordinary : IsOrdinary char) :
    ∃ index line column, lexer.here = ⟨char, index, line, column⟩ ∧
      lexer.input = ⟨char, index, line, column⟩ ::
        place (index + char.utf8Size) line (column + 1) rest := by
  obtain ⟨index, line, column, input⟩ := ready.here
  rw [place_cons ordinary] at input
  refine ⟨index, line, column, ?_, input⟩
  rw [Lexer.here, input]
  rfl

theorem atDocumentMark_other {mark : Char} (other : char ≠ mark) (index line column : Nat)
    (rest : List Glyph) :
    atDocumentMark mark (⟨char, index, line, column⟩ :: rest) = false := by
  unfold atDocumentMark
  split
  · next same =>
      obtain ⟨rfl, -⟩ := List.cons.inj same
      simp [other]
  · rfl

/-- The lexer behind a mark. -/
def behind (lexer : Lexer) (keyAllowed : Bool) (token : Token) : Lexer :=
  ((lexer.allowKey keyAllowed).moveTo (lexer.input.drop 1)).emit token

theorem Ready.behind (ready : Ready lexer flow tokens char rest) (ordinary : IsOrdinary char)
    (keyAllowed : Bool) (token : Token) :
    Scanned (lexer.behind keyAllowed token) flow (token :: tokens) rest ∧
      (lexer.behind keyAllowed token).input.length < lexer.input.length := by
  obtain ⟨index, line, column, -, input⟩ := ready.here_eq ordinary
  have scanned := ready.scanned
  have drop : (lexer.behind keyAllowed token).input =
      place (index + char.utf8Size) line (column + 1) rest := by
    change lexer.input.drop 1 = _
    rw [input]
    rfl
  constructor
  · refine { scanned with
      input := drop ▸ place_trim (index + char.utf8Size) line (column + 1) rest
      emitted := congrArg (token :: ·) scanned.emitted
      count := congrArg (· + 1) scanned.count }
  · rw [drop, input]
    exact Nat.lt_succ_self _

/-- The mark itself is looked at, since no document starts or ends here. -/
theorem Ready.seen (ready : Ready lexer flow tokens char rest) (ordinary : IsOrdinary char)
    (noDash : char ≠ '-') (noPoint : char ≠ '.') :
    lexer.here.char = char ∧ atDocumentMark '-' lexer.input = false ∧
      atDocumentMark '.' lexer.input = false := by
  obtain ⟨index, line, column, here, input⟩ := ready.here_eq ordinary
  rw [here, input, atDocumentMark_other noDash, atDocumentMark_other noPoint]
  exact ⟨rfl, rfl, rfl⟩

end Marks

/-! ## Brackets and commas -/

section Brackets

variable {rest : List Char}

/-- With other candidates, none of which is required, and another number of brackets. -/
theorem Ready.withFlow {char : Char} (ready : Ready lexer flow tokens char rest)
    {candidates : List (Option Candidate)}
    (free : ∀ candidate, some candidate ∈ candidates → candidate.required = false) (flow' : Nat) :
    Ready { lexer with candidates, flow := flow' } flow' tokens char rest :=
  ⟨{ ready.scanned with free, brackets := rfl }, ready.here⟩

theorem free_none {candidates : List (Option Candidate)}
    (free : ∀ candidate, some candidate ∈ candidates → candidate.required = false) :
    ∀ candidate, some candidate ∈ none :: candidates → candidate.required = false :=
  fun candidate mem => free candidate (by simpa using mem)

theorem Scanned.openFlow {mark : Char} {opening : Token}
    (bracket : mark = '[' ∧ opening = .flowSequenceStart ∨
      mark = '\x7b' ∧ opening = .flowMappingStart)
    (scanned : Scanned lexer flow tokens (mark :: rest)) :
    ∃ after, Reaches lexer after ∧ Scanned after (flow + 1) (opening :: tokens) rest ∧
      after.keyAllowed = true := by
  have ends : EndsGap mark := by
    rcases bracket with ⟨rfl, -⟩ | ⟨rfl, -⟩ <;> decide
  refine scanned.step ends fun next ready _ => ?_
  obtain ⟨candidates, noted, free, -⟩ := ready.scanned.noteCandidate_eq
  have seen := ready.seen ends.1 (by rcases bracket with ⟨rfl, -⟩ | ⟨rfl, -⟩ <;> decide)
    (by rcases bracket with ⟨rfl, -⟩ | ⟨rfl, -⟩ <;> decide)
  have token : next.token = (next.openFlow opening).map (false, ·) := by
    unfold token
    rcases bracket with ⟨rfl, rfl⟩ | ⟨rfl, rfl⟩ <;> simp [seen, isEnd]
  obtain ⟨after, shorter⟩ :=
    (ready.withFlow (free_none free.free) (flow + 1)).behind ends.1 true opening
  refine ⟨_, ?_, shorter, after, rfl⟩
  rw [token, Lexer.openFlow, noted, ← ready.scanned.brackets]
  rfl

theorem Scanned.closeFlow {mark : Char} {closing : Token}
    (bracket : mark = ']' ∧ closing = .flowSequenceEnd ∨
      mark = '\x7d' ∧ closing = .flowMappingEnd)
    (scanned : Scanned lexer (flow + 1) tokens (mark :: rest)) :
    ∃ after, Reaches lexer after ∧ Scanned after flow (closing :: tokens) rest := by
  have ends : EndsGap mark := by
    rcases bracket with ⟨rfl, -⟩ | ⟨rfl, -⟩ <;> decide
  refine scanned.step ends fun next ready _ => ?_
  obtain ⟨candidates, dropped, free⟩ := ready.scanned.dropCandidate_eq
  have seen := ready.seen ends.1 (by rcases bracket with ⟨rfl, -⟩ | ⟨rfl, -⟩ <;> decide)
    (by rcases bracket with ⟨rfl, -⟩ | ⟨rfl, -⟩ <;> decide)
  have token : next.token = (next.closeFlow closing).map (false, ·) := by
    unfold token
    rcases bracket with ⟨rfl, rfl⟩ | ⟨rfl, rfl⟩ <;> simp [seen, isEnd]
  have inside : ({ next with candidates }).inFlow = true := by
    rw [inFlow, free.brackets]
    rfl
  obtain ⟨after, shorter⟩ :=
    (ready.withFlow (fun candidate mem => free.free candidate (List.mem_of_mem_drop mem))
      flow).behind ends.1 false closing
  refine ⟨_, ?_, shorter, after⟩
  rw [token, Lexer.closeFlow, dropped]
  simp only [Option.bind_eq_bind, Option.bind_some, inside, if_true]
  rw [ready.scanned.brackets]
  rfl

theorem Scanned.flowEntry (scanned : Scanned lexer flow tokens (',' :: rest)) :
    ∃ after, Reaches lexer after ∧ Scanned after flow (.flowEntry :: tokens) rest ∧
      after.keyAllowed = true := by
  have ends : EndsGap ',' := by decide
  refine scanned.step ends fun next ready _ => ?_
  obtain ⟨candidates, dropped, free⟩ := ready.scanned.dropCandidate_eq
  have seen := ready.seen ends.1 (by decide) (by decide)
  have token : next.token = next.flowEntry.map (false, ·) := by
    unfold token
    simp [seen, isEnd]
  obtain ⟨after, shorter⟩ := (ready.withFlow free.free flow).behind ends.1 true .flowEntry
  refine ⟨_, ?_, shorter, after, rfl⟩
  rw [token, Lexer.flowEntry, dropped, ← ready.scanned.brackets]
  rfl

end Brackets

/-! ## Scalars -/

section Scalars

variable {rest : List Char}

/-- The lexer behind a scalar. -/
theorem Scanned.scalar {left right : List Char} (scanned : Scanned lexer flow tokens left)
    (keyAllowed : Bool) (index line column : Nat) (token : Token) :
    Scanned (((lexer.allowKey keyAllowed).moveTo (place index line column right)).emit token)
      flow (token :: tokens) right :=
  { scanned with
    input := place_trim index line column right
    emitted := congrArg (token :: ·) scanned.emitted
    count := congrArg (· + 1) scanned.count }

theorem single_of_ordinary {chars : List Char} (ordinary : ∀ char ∈ chars, IsOrdinary char) :
    ∀ char ∈ chars, char ≠ '\r' ∧ char ≠ '\x85' :=
  fun char mem => ⟨(ordinary char mem).1, (ordinary char mem).2.1⟩

theorem quote_cons (text : String) : ∃ chars, (Json.quote text).toList = '"' :: chars :=
  ⟨_, by rw [Json.quote, String.toList_ofList]⟩

/-- A quoted text is one scalar. If a key may start at its place, it is noted as one. -/
theorem Ready.quoted {text : String} {chars : List Char}
    (keeps : ∀ char ∈ text.toList, Text.KeepsLine char)
    (quote : (Json.quote text).toList = '"' :: chars)
    (ready : Ready lexer flow tokens '"' (chars ++ rest)) :
    ∃ after, lexer.token = some (false, after) ∧ after.input.length < lexer.input.length ∧
      Scanned after flow (.scalar text .doubleQuoted :: tokens) rest ∧
      (lexer.keyAllowed = true → after.candidates.head? = some (some lexer.candidate)) ∧
      ∃ column, after.input = place (lexer.here.index + byteCount (Json.quote text).toList)
        lexer.here.line column rest := by
  have ends : EndsGap '"' := by decide
  obtain ⟨candidates, noted, free, head⟩ := ready.scanned.noteCandidate_eq
  have seen := ready.seen ends.1 (by decide) (by decide)
  have token : lexer.token = (lexer.quotedScalar .doubleQuoted).map (false, ·) := by
    unfold token
    simp [seen, isEnd]
  obtain ⟨index, line, column, input⟩ := ready.here
  rw [← List.cons_append, ← quote] at input
  obtain ⟨glyphs, column', placed, read⟩ := scanQuoted_quote keeps index line column rest
  have here : lexer.here = ⟨'"', index, line, column⟩ := by
    rw [Lexer.here, input, placed]
    rfl
  have left : lexer.input.drop 1 = glyphs := by
    rw [input, placed]
    rfl
  rw [here]
  refine ⟨_, ?_, ?_, free.scalar false (index + byteCount (Json.quote text).toList) line column' _,
    head, column', rfl⟩
  · rw [token, quotedScalar, noted]
    change ((scanQuoted false _ _ _ (lexer.input.drop 1)).bind _).map _ = _
    rw [left, read]
    rfl
  · change (place _ _ _ rest).length < _
    rw [input, length_place_append (single_of_ordinary (ordinary_quote keeps)) rest _ _ _
      (index + byteCount (Json.quote text).toList) line column', quote, List.length_cons]
    omega

theorem Scanned.quoted {text : String} (keeps : ∀ char ∈ text.toList, Text.KeepsLine char)
    (scanned : Scanned lexer flow tokens ((Json.quote text).toList ++ rest)) :
    ∃ after, Reaches lexer after ∧
      Scanned after flow (.scalar text .doubleQuoted :: tokens) rest := by
  obtain ⟨chars, quote⟩ := quote_cons text
  rw [quote] at scanned
  refine scanned.step (by decide) fun next ready _ => ?_
  obtain ⟨after, token, shorter, scalar, -⟩ := ready.quoted keeps quote
  exact ⟨after, token, shorter, scalar⟩

/-- The colon behind a scalar makes it the key whose place was noted. -/
theorem Ready.colon {scalar : Token} {candidate : Candidate} (inside : flow ≠ 0)
    (noted : lexer.candidates.head? = some (some candidate))
    (before : candidate.before = tokens.length)
    (ready : Ready lexer flow (scalar :: tokens) ':' rest) :
    ∃ after, lexer.token = some (false, after) ∧ after.input.length < lexer.input.length ∧
      Scanned after flow (.value :: scalar :: .key :: tokens) rest := by
  have ordinary : IsOrdinary ':' := by decide
  have seen := ready.seen ordinary (by decide) (by decide)
  have flowing : lexer.inFlow = true := by
    rw [inFlow, ready.scanned.brackets]
    simpa using inside
  have token : lexer.token = lexer.value.map (false, ·) := by
    unfold token
    simp [seen, isEnd, flowing]
  obtain ⟨others, candidates⟩ : ∃ others, lexer.candidates = some candidate :: others := by
    cases same : lexer.candidates with
    | nil => simp [same] at noted
    | cons first others =>
      rw [same] at noted
      obtain rfl := Option.some.inj noted
      exact ⟨others, rfl⟩
  have scanned := ready.scanned
  have keyed : lexer.insert candidate.before .key =
      { lexer with tokens := scalar :: .key :: tokens, count := lexer.count + 1 } := by
    rw [insert, scanned.emitted, scanned.count, before]
    simp
  have free := scanned.free
  rw [candidates] at free
  have state : Ready
      { lexer with
        tokens := scalar :: .key :: tokens, count := lexer.count + 1
        candidates := none :: others } flow (scalar :: .key :: tokens) ':' rest := by
    refine ⟨{ scanned with emitted := rfl, count := ?_, free := ?_ }, ready.here⟩
    · exact congrArg (· + 1) scanned.count
    · exact free_none fun other mem => free other (List.mem_cons_of_mem _ mem)
  obtain ⟨after, shorter⟩ := state.behind ordinary false .value
  refine ⟨_, ?_, shorter, after⟩
  rw [token, value, candidates]
  dsimp only
  rw [keyed, roll, if_pos (by rw [Bool.or_eq_true]; exact Or.inl flowing)]
  rfl

/-- A quoted text and a colon behind it are a key if a key may start there and the text is not too
long. -/
theorem Scanned.key {text : String} (keeps : ∀ char ∈ text.toList, Text.KeepsLine char)
    (short : byteCount (Json.quote text).toList ≤ 1024) (inside : flow ≠ 0)
    (allowed : lexer.keyAllowed = true)
    (scanned : Scanned lexer flow tokens ((Json.quote text).toList ++ ':' :: ' ' :: rest)) :
    ∃ after, Reaches lexer after ∧
      Scanned after flow (.value :: .scalar text .doubleQuoted :: .key :: tokens) rest := by
  obtain ⟨chars, quote⟩ := quote_cons text
  rw [quote] at scanned
  -- The scalar first, whose place is the candidate.
  obtain ⟨after, reaches, scalar, candidate, noted, before, index, column, input, time⟩ :
      ∃ after, Reaches lexer after ∧ Scanned after flow (.scalar text .doubleQuoted :: tokens)
          (':' :: ' ' :: rest) ∧
        ∃ candidate : Candidate, after.candidates.head? = some (some candidate) ∧
          candidate.before = tokens.length ∧
          ∃ index column, after.input = place index candidate.line column (':' :: ' ' :: rest) ∧
            index ≤ candidate.index + 1024 := by
    refine scanned.step (by decide) fun next ready same => ?_
    obtain ⟨after, token, shorter, scalar, head, column, input⟩ := ready.quoted keeps quote
    refine ⟨after, token, shorter, scalar, next.candidate, head ?_, ready.scanned.count, _, column,
      input, ?_⟩
    · rw [same inside, allowed]
    · exact Nat.add_le_add_left short _
  have ends : EndsGap ':' := by decide
  have skipped : skipGap after.inFlow after.keyAllowed false after.input =
      (after.keyAllowed, place index candidate.line column (':' :: ' ' :: rest)) := by
    rw [input, skipGap_mark ends]
  have ready : Ready (after.settled after.keyAllowed
      (place index candidate.line column (':' :: ' ' :: rest))) flow
        (.scalar text .doubleQuoted :: tokens) ':' (' ' :: rest) :=
    ⟨scalar.settled _ _ _ _ _, index, candidate.line, column, rfl⟩
  have kept : (after.settled after.keyAllowed
      (place index candidate.line column (':' :: ' ' :: rest))).candidates.head? =
        some (some candidate) := by
    have timely : candidate.isStale ⟨':', index, candidate.line, column⟩ = false := by
      simp [Candidate.isStale, time]
    rw [place_cons ends.1, Lexer.settled]
    simp [List.head?_map, noted, Option.filter, timely]
  obtain ⟨last, token, shorter, value⟩ := ready.colon inside kept before
  have spaced : Scanned last flow _ ([' '] ++ rest) := value
  refine ⟨last, reaches.trans (.step ((scalar.advance_eq skipped).trans token) ?_),
    (Scanned.gap (by simp [IsWhite])).mp spaced⟩
  rw [input]
  exact shorter

/-- A word or a number. It may start with a dash, but not with two. -/
structure IsWord (word : List Char) : Prop where
  plain : ∀ char ∈ word, isPlainChar char = true
  starts : ∃ first rest, word = first :: rest ∧ first ≠ '.' ∧
    (first ≠ '-' ∨ ∃ second more, rest = second :: more ∧ second ≠ '-')

theorem isGap_plain {char : Char} (plain : isPlainChar char = true) : isGap char = false := by
  have ne := ne_of_isPlainChar plain
  simp [isGap, isBlank, isBreakOrEnd, isEnd, (ordinary_plain plain).2.2, ne ' ' (by decide),
    ne '\t' (by decide), ne '\x00' (by decide)]

theorem endsGap_plain {char : Char} (plain : isPlainChar char = true) : EndsGap char := by
  have ne := ne_of_isPlainChar plain
  exact ⟨ordinary_plain plain, ne _ (by decide), ne _ (by decide), ne _ (by decide),
    ne _ (by decide)⟩

theorem atDocumentMark_second {mark second : Char} (other : second ≠ mark) (first : Glyph)
    (index line column : Nat) (rest : List Glyph) :
    atDocumentMark mark (first :: ⟨second, index, line, column⟩ :: rest) = false := by
  unfold atDocumentMark
  split
  · next same =>
      obtain ⟨-, rfl, -⟩ : _ ∧ _ ∧ _ := by simpa using same
      simp [other]
  · rfl

theorem startsPlain_plain {char next : Char} (plain : isPlainChar char = true)
    (joined : char = '-' → isGap next = false) : startsPlain true char next = true := by
  have ne := ne_of_isPlainChar plain
  rw [startsPlain, isGap_plain plain]
  by_cases dash : char = '-'
  · have blank : isBlank next = false := (Bool.or_eq_false_iff.mp (joined dash)).1
    simp [dash, blank]
  · have other : "-?:,[]\x7b\x7d#&*!|>'\"%@`".toList.contains char = false := by
      rw [Bool.eq_false_iff, ne_eq, List.contains_iff_mem]
      intro mem
      have marks : "-?:,[]\x7b\x7d#&*!|>'\"%@`".toList.all
          (fun mark => mark = '-' || !isPlainChar mark) = true := by decide
      have apart := List.all_eq_true.mp marks char mem
      simp [plain, dash] at apart
    rw [other]
    rfl

/-- A word is scanned as a plain scalar. -/
theorem Ready.token_plain {word : List Char} {first : Char} {others : List Char}
    (inside : flow ≠ 0) (isWord : IsWord word) (cons : word ++ rest = first :: others)
    (ready : Ready lexer flow tokens first others) :
    lexer.token = lexer.plainScalar.map (false, ·) := by
  obtain ⟨start, tail, rfl, noPoint, starts⟩ := isWord.starts
  obtain ⟨rfl, rfl⟩ := List.cons.inj cons
  have plain := isWord.plain start List.mem_cons_self
  obtain ⟨index, line, column, here, input⟩ := ready.here_eq (ordinary_plain plain)
  have flowing : lexer.inFlow = true := by
    rw [inFlow, ready.scanned.brackets]
    simpa using inside
  have points : atDocumentMark '.' lexer.input = false := by
    rw [input, atDocumentMark_other noPoint]
  -- What follows a dash is part of the number.
  have dashes : atDocumentMark '-' lexer.input = false ∧
      (start = '-' → isGap (headChar (lexer.input.drop 1)) = false) := by
    rcases starts with noDash | ⟨second, more, rfl, noDash⟩
    · rw [input, atDocumentMark_other noDash]
      exact ⟨rfl, fun dash => absurd dash noDash⟩
    · have next := isWord.plain second (by simp)
      rw [input]
      change atDocumentMark '-' (_ :: place _ _ _ (second :: (more ++ rest))) = false ∧
        (_ → isGap (headChar (place _ _ _ (second :: (more ++ rest)))) = false)
      rw [place_cons (ordinary_plain next), atDocumentMark_second noDash]
      exact ⟨rfl, fun _ => isGap_plain next⟩
  have ne := ne_of_isPlainChar plain
  have starting := startsPlain_plain plain dashes.2
  have notDash : (start = '-' && isGap (headChar (lexer.input.drop 1))) = false := by
    by_cases dash : start = '-'
    · rw [dashes.2 dash, Bool.and_false]
    · rw [decide_eq_false dash, Bool.false_and]
  have last : isEnd start = false := (Bool.or_eq_false_iff.mp
    (Bool.or_eq_false_iff.mp (isGap_plain plain)).2).2
  have percent : (decide (column = 0) && decide (start = '%')) = false := by
    rw [decide_eq_false (ne '%' (by decide)), Bool.and_false]
  unfold token
  simp only [here, points, dashes.1, flowing, last, percent, Bool.false_eq_true, if_false]
  split
  all_goals first
    | exact absurd plain (by decide)
    | skip
  simp only [notDash, ne '?' (by decide), ne ':' (by decide), ne '|' (by decide),
    ne '>' (by decide), starting, decide_false, Bool.false_and, Bool.false_eq_true, if_false,
    if_true]

/-- A word is one scalar, and the white space behind it is skipped. -/
theorem Scanned.plain {word gap : List Char} {mark : Char} (isWord : IsWord word)
    (white : IsWhite gap) (ends : EndsValue mark) (inside : flow ≠ 0)
    (scanned : Scanned lexer flow tokens (word ++ (gap ++ mark :: rest))) :
    ∃ after, Reaches lexer after ∧
      Scanned after flow (.scalar (String.ofList word) .plain :: tokens) (mark :: rest) := by
  obtain ⟨first, others, cons⟩ : ∃ first others, word ++ (gap ++ mark :: rest) = first :: others := by
    obtain ⟨first, tail, rfl, -⟩ := isWord.starts
    exact ⟨first, _, rfl⟩
  have plain : isPlainChar first = true := by
    obtain ⟨start, tail, rfl, -⟩ := isWord.starts
    obtain ⟨rfl, -⟩ := List.cons.inj cons
    exact isWord.plain start List.mem_cons_self
  rw [cons] at scanned
  refine scanned.step (endsGap_plain plain) fun next ready _ => ?_
  obtain ⟨candidates, noted, free, -⟩ := ready.scanned.noteCandidate_eq
  have flowing : next.inFlow = true := by
    rw [inFlow, ready.scanned.brackets]
    simpa using inside
  obtain ⟨index, line, column, input⟩ := ready.here
  rw [← cons] at input
  obtain ⟨hasBreak, index', line', column', read⟩ :=
    scanPlain_word (next.indentation + 1) index line column isWord.plain white ends rest
  refine ⟨_, ?_, ?_, free.scalar hasBreak index' line' column' _⟩
  · rw [ready.token_plain inside isWord cons, plainScalar, noted]
    change ((scanPlain next.inFlow (next.indentation + 1) [] .none next.input).bind _).map _ = _
    rw [flowing, input, read]
    rfl
  · change (place _ _ _ (mark :: rest)).length < _
    have single : ∀ char ∈ word ++ gap, char ≠ '\r' ∧ char ≠ '\x85' := by
      rw [List.forall_mem_append]
      refine ⟨single_of_ordinary fun char mem => ordinary_plain (isWord.plain char mem), ?_⟩
      intro char mem
      rcases white char mem with rfl | rfl <;> decide
    rw [input, ← List.append_assoc, length_place_append single (mark :: rest) _ _ _ index' line'
      column', List.length_append]
    obtain ⟨start, tail, rfl, -⟩ := isWord.starts
    rw [List.length_cons]
    omega

end Scalars

/-! ## The end -/

/-- Behind white space the text ends, and the tokens are complete. -/
theorem Scanned.finish (scanned : Scanned lexer 0 tokens []) (fuel : Nat) :
    run (fuel + 1) lexer = some tokens.reverse := by
  obtain ⟨gap, index, line, column, white, input⟩ := scanned.input
  rw [trim, List.dropWhile_nil] at input
  obtain ⟨keyAllowed, index', line', column', -, skipped⟩ := skipGap_white white
    (skipGap_nil lexer.inFlow) lexer.keyAllowed index line column
  rw [← input] at skipped
  have last := scanned.settled keyAllowed index' line' column' []
  obtain ⟨candidates, dropped, final⟩ := last.dropCandidate_eq
  have token : (lexer.settled keyAllowed (place index' line' column' [])).token =
      some (true, { lexer.settled keyAllowed (place index' line' column' []) with candidates }) := by
    have atEnd : isEnd (lexer.settled keyAllowed (place index' line' column' [])).here.char =
        true := rfl
    unfold token
    simp only [atEnd, if_true, unroll_eq last.indentation (Int.le_refl (-1)), dropped]
    rfl
  rw [run, scanned.advance_eq skipped, token]
  exact congrArg (fun tokens => some tokens.reverse) final.emitted

end SchemaLift.Yaml.Lexer
