import SchemaLift.Document.Writer
import SchemaLift.Proofs.Document.Reader
import SchemaLift.Proofs.Schema.RoundTrip

/-!
# Parts of documents, written and read again

Reading what has been written gives an equal value back exactly when no schema in the value has a
degenerate node (`RoundTrips`). This holds of schemas, and it is carried over from the parts of a
value to the value: to pairs, to optional values, to lists and to members, and to whatever is made
of them (`RoundTrips.build`). So the laws of the parts of a document follow its structure.
-/

namespace SchemaLift

open Members

/-- What comes of a value that has been written and read again. If none of the schemas that it
mentions has a degenerate node, it is read as an equal value, of which the same is written and which
mentions no other schemas; and if it is read as an equal value, none of these schemas has one. -/
structure RoundTrips {α γ ε : Type} (same : α → α → Bool) (write : α → γ)
    (mentions : Bool → Schema → α → Prop) (value : α) (result : Except ε α) : Prop where
  returns : (∀ enums schema, mentions enums schema value → schema.Regular) →
    ∃ back, result = .ok back ∧ same value back = true ∧ write back = write value ∧
      ∀ enums schema, mentions enums schema back → mentions enums schema value
  regular : ∀ back, result = .ok back → same value back = true →
    ∀ enums schema, mentions enums schema value → schema.Regular

/-- A schema that stands at a position where enumerations count or do not. -/
theorem Schema.Sound.roundTrips {schema : Schema} (sound : schema.Sound) (counts : Bool) :
    RoundTrips Schema.same toJson (fun enums found value => value = found ∧ counts = enums) schema
      (ofJson schema.toJson) := by
  constructor
  · intro regular
    have read := ofJson_toJson sound.asRead sound.distinctKeys (regular counts schema ⟨rfl, rfl⟩)
    exact ⟨schema, read, same_refl sound.distinctKeys, rfl, fun _ _ => id⟩
  · rintro back read same enums _ ⟨rfl, _⟩
    exact regular_of_same sound.asRead sound.distinctKeys read same

/-- Read a value that need not be there. -/
def readOption {α ε : Type} (read : α → Except ε α) : Option α → Except ε (Option α)
  | some inner => (read inner).map some
  | none => .ok none

namespace RoundTrips

section Combinators

variable {α β γ δ ε : Type} {same : α → α → Bool} {write : α → γ}
  {mentions : Bool → Schema → α → Prop}

/-- A value that is read as it was written. -/
theorem of_eq {value : α} {result : Except ε α} (read : result = .ok value)
    (equal : same value value = true) (none : ∀ enums schema, ¬mentions enums schema value) :
    RoundTrips same write mentions value result := by
  constructor
  · exact fun _ => ⟨value, read, equal, rfl, fun _ _ => id⟩
  · exact fun _ _ _ enums schema inside => absurd inside (none enums schema)

/-- A value that is made of a part. -/
theorem build (make : α → β) {part : α} {inner : Except ε α}
    (all : RoundTrips same write mentions part inner) {sameWhole : β → β → Bool}
    {writeWhole : β → δ} {mentionsWhole : Bool → Schema → β → Prop} {value : β}
    {result : Except ε β}
    (read : result = inner.map make)
    (equal : ∀ back, inner = .ok back → sameWhole value (make back) = same part back)
    (written : ∀ back, write back = write part → writeWhole (make back) = writeWhole value)
    (here : ∀ enums schema, mentionsWhole enums schema value ↔ mentions enums schema part)
    (there : ∀ back enums schema, mentionsWhole enums schema (make back) ↔
      mentions enums schema back) :
    RoundTrips sameWhole writeWhole mentionsWhole value result := by
  constructor
  · intro regular
    obtain ⟨back, found, fits, again, mentioned⟩ :=
      all.returns fun enums schema inside => regular enums schema ((here enums schema).mpr inside)
    refine ⟨make back, ?_, (equal back found).trans fits, written back again, ?_⟩
    · rw [read, found]
      rfl
    · intro enums schema inside
      rw [there] at inside
      exact (here enums schema).mpr (mentioned enums schema inside)
  · intro whole found fits enums schema inside
    cases got : inner with
    | error fault =>
        rw [read, got] at found
        cases found
    | ok back =>
        rw [read, got] at found
        cases found
        rw [equal back got] at fits
        exact all.regular back got fits enums schema ((here enums schema).mp inside)

/-- Two values that are read one after the other. -/
theorem pair {first : α} {firstRead : Except ε α}
    (left : RoundTrips same write mentions first firstRead) {sameSecond : β → β → Bool}
    {writeSecond : β → δ} {mentionsSecond : Bool → Schema → β → Prop} {second : β}
    {secondRead : Except ε β}
    (right : RoundTrips sameSecond writeSecond mentionsSecond second secondRead) :
    RoundTrips (fun whole back => same whole.1 back.1 && sameSecond whole.2 back.2)
      (fun whole => (write whole.1, writeSecond whole.2))
      (fun enums schema whole => mentions enums schema whole.1 ∨
        mentionsSecond enums schema whole.2)
      (first, second) (do pure ((← firstRead), (← secondRead))) := by
  constructor
  · intro regular
    obtain ⟨one, firstFound, firstFits, firstAgain, firstMentions⟩ :=
      left.returns fun enums schema inside => regular enums schema (Or.inl inside)
    obtain ⟨two, secondFound, secondFits, secondAgain, secondMentions⟩ :=
      right.returns fun enums schema inside => regular enums schema (Or.inr inside)
    refine ⟨(one, two), ?_, ?_, ?_, fun enums schema inside => ?_⟩
    · rw [firstFound, secondFound]
      rfl
    · rw [firstFits, secondFits]
      rfl
    · rw [firstAgain, secondAgain]
    · exact inside.imp (firstMentions enums schema) (secondMentions enums schema)
  · rintro ⟨one, two⟩ found fits enums schema inside
    rcases bind_eq_ok_iff.mp found with ⟨_, firstFound, found⟩
    rcases bind_eq_ok_iff.mp found with ⟨_, secondFound, found⟩
    cases pure_eq_ok_iff.mp found
    rw [Bool.and_eq_true] at fits
    rcases inside with inside | inside
    · exact left.regular one firstFound fits.1 enums schema inside
    · exact right.regular two secondFound fits.2 enums schema inside

/-- A value that need not be there. -/
theorem option {value : Option α} {read : α → Except ε α}
    (each : ∀ inner, value = some inner → RoundTrips same write mentions inner (read inner)) :
    RoundTrips (sameOption same) (Option.map write)
      (fun enums schema value => ∃ inner, value = some inner ∧ mentions enums schema inner)
      value (readOption read value) := by
  cases value with
  | none => exact of_eq rfl rfl (by simp)
  | some inner =>
      apply build some (each inner rfl) rfl
      · exact fun back _ => rfl
      · intro back again
        rw [Option.map_some, Option.map_some, again]
      · simp
      · simp

/-- Values that are read one by one. -/
theorem list {values : List α} {read : α → Except ε α}
    (each : ∀ value ∈ values, RoundTrips same write mentions value (read value)) :
    RoundTrips (sameLists same) (List.map write)
      (fun enums schema values => ∃ value ∈ values, mentions enums schema value) values
      (values.mapM read) := by
  induction values with
  | nil => exact of_eq rfl rfl (by simp)
  | cons value rest ih =>
      have own := each value List.mem_cons_self
      have later := ih fun other present => each other (List.mem_cons_of_mem _ present)
      apply build (fun both => both.1 :: both.2) (own.pair later)
      · rw [List.mapM_cons]
        cases read value with
        | error => rfl
        | ok first => cases rest.mapM read <;> rfl
      · exact fun back _ => by rw [sameLists]
      · intro back again
        rw [Prod.mk.injEq] at again
        rw [List.map_cons, List.map_cons, again.1, again.2]
      · simp
      · simp

/-- For members with the same keys, none of them twice, the order of members makes no difference. -/
theorem same_eq_sameLists {left right : Members α} (distinct : Distinct left)
    (keys : Members.keys right = Members.keys left) :
    Members.same same left right =
      sameLists (fun member other => member.1 == other.1 && same member.2 other.2) left right := by
  rw [Bool.eq_iff_iff, same_iff_matches]
  induction left generalizing right with
  | nil =>
      obtain rfl : right = [] := List.map_eq_nil_iff.mp keys
      simp [Matches, sameLists]
  | cons member rest ih =>
      rcases member with ⟨key, value⟩
      rcases List.map_eq_cons_iff.mp keys with ⟨⟨name, other⟩, others, rfl, same, later⟩
      obtain rfl : key = name := same.symm
      rcases List.nodup_cons.mp distinct with ⟨absent, distinct⟩
      have differs : ∀ {name inner}, (name, inner) ∈ rest → key ≠ name := by
        rintro name inner present rfl
        exact absent (mem_keys_of_mem present)
      rw [sameLists, Bool.and_eq_true, ← ih distinct later]
      constructor
      · intro all
        rcases all.2 key value List.mem_cons_self with ⟨found, lookup, fits⟩
        rw [get?_cons, if_pos rfl] at lookup
        cases lookup
        refine ⟨by simp [fits], by simpa using all.1, fun name inner present => ?_⟩
        rcases all.2 name inner (List.mem_cons_of_mem _ present) with ⟨found, lookup, fits⟩
        rw [get?_cons, if_neg (differs present)] at lookup
        exact ⟨found, lookup, fits⟩
      · rintro ⟨own, all⟩
        refine ⟨by simp [all.1], fun name inner present => ?_⟩
        rcases List.mem_cons.mp present with same | inside
        · cases same
          exact ⟨other, by rw [get?_cons, if_pos rfl], by simpa using own⟩
        · rcases all.2 name inner inside with ⟨found, lookup, fits⟩
          exact ⟨found, by rwa [get?_cons, if_neg (differs inside)], fits⟩

/-- Members are read one by one. -/
theorem readEntries_mapValues (read : String → Json → Except Fault α) (writeEach : α → Json)
    (members : Members α) :
    readEntries read (mapValues writeEach members) = members.mapM fun member =>
      (read member.1 (writeEach member.2)).map fun value => (member.1, value) := by
  induction members with
  | nil => rfl
  | cons member rest ih =>
      rcases member with ⟨key, value⟩
      rw [List.mapM_cons, ← ih]
      change readEntries read ((key, writeEach value) :: mapValues writeEach rest) = _
      rw [readEntries]
      cases read key (writeEach value) <;> rfl

/-- Members that are read one by one. -/
theorem members (read : String → Json → Except Fault α) {members : Members α}
    (distinct : Distinct members) {writeEach : α → Json}
    {mentionsAt : String → Bool → Schema → α → Prop}
    (each : ∀ name value, (name, value) ∈ members →
      RoundTrips same writeEach (mentionsAt name) value (read name (writeEach value))) :
    RoundTrips (Members.same same) (mapValues writeEach)
      (fun enums schema members => ∃ name value, (name, value) ∈ members ∧
        mentionsAt name enums schema value) members
      (readEntries read (mapValues writeEach members)) := by
  have entries : ∀ member ∈ members,
      RoundTrips (fun member other => member.1 == other.1 && same member.2 other.2)
        (fun member => (member.1, writeEach member.2))
        (fun enums schema member => mentionsAt member.1 enums schema member.2) member
        ((read member.1 (writeEach member.2)).map fun value => (member.1, value)) := by
    intro member present
    apply build (fun value => (member.1, value)) (each member.1 member.2 present) rfl
    · exact fun back _ => by rw [beq_self_eq_true, Bool.true_and]
    · intro back again
      rw [again]
    · exact fun _ _ => Iff.rfl
    · exact fun _ _ _ => Iff.rfl
  apply build id (list entries)
  · rw [readEntries_mapValues]
    cases members.mapM fun member =>
      (read member.1 (writeEach member.2)).map fun value => (member.1, value) <;> rfl
  · intro back found
    rw [← readEntries_mapValues] at found
    have keys := (readEntries_eq_ok_iff.mp found).keys_eq
    apply same_eq_sameLists distinct
    rw [id, keys, keys_mapValues]
  · exact fun back again => again
  · simp
  · simp

end Combinators

end RoundTrips

end SchemaLift
