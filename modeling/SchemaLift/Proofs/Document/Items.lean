import SchemaLift.Proofs.Document.Parameters

/-!
# Path items, written and read again

Path items contain path items, in the callbacks of their operations. What holds of those inside is
carried over to the operations and from them to the path item (`PathItem.Sound.roundTrips`). The
operations are read method by method, in the order in which they are written
(`operationsIn_eq_mapM`).
-/

namespace SchemaLift

open Members

/-! ## Callbacks -/

theorem itemMembers_eq (items : List (String × PathItem)) :
    itemMembers items = mapValues PathItem.toJson items := by
  induction items with
  | nil =>
      rw [itemMembers]
      rfl
  | cons item rest ih =>
      rw [itemMembers, ih]
      rfl

theorem callbackMembers_eq (callbacks : List (String × RefOr Callback)) :
    callbackMembers callbacks = mapValues (RefOr.toJson Callback.toJson) callbacks := by
  induction callbacks with
  | nil =>
      rw [callbackMembers]
      rfl
  | cons callback rest ih =>
      rcases callback with ⟨name, callback⟩
      cases callback <;> rw [callbackMembers, ih] <;> rfl

theorem sameItems_eq (left right : Members PathItem) :
    (left.length == right.length && sameItems left right) =
      Members.same PathItem.same left right := by
  have each : sameItems left right =
      left.all fun item => (get? item.1 right).any item.2.same := by
    induction left with
    | nil =>
        rw [sameItems]
        rfl
    | cons item rest ih =>
        rw [sameItems, ih, List.all_cons]
        cases get? item.1 right <;> rfl
  rw [each]
  rfl

theorem Callback.same_eq (left right : Callback) :
    left.same right = Members.same PathItem.same left.expressions right.expressions := by
  rcases left with ⟨expressions⟩
  rw [Callback.same, sameItems_eq]

theorem sameCallbacks_eq (left right : Members (RefOr Callback)) :
    (left.length == right.length && sameCallbacks left right) =
      Members.same (RefOr.same Callback.same) left right := by
  have each : sameCallbacks left right = left.all fun callback =>
      (get? callback.1 right).any (RefOr.same Callback.same callback.2) := by
    induction left with
    | nil =>
        rw [sameCallbacks]
        rfl
    | cons callback rest ih =>
        rcases callback with ⟨name, callback⟩
        rw [List.all_cons, ← ih]
        cases callback <;> cases found : get? name right with
        | none => simp [sameCallbacks, found]
        | some other => cases other <;> simp [sameCallbacks, found, RefOr.same]
  rw [each]
  rfl

theorem Callback.toJson_eq (callback : Callback) :
    callback.toJson = .object (mapValues PathItem.toJson callback.expressions) := by
  rcases callback with ⟨expressions⟩
  rw [toJson, itemMembers_eq]

/-- No path item is written as a text, so that a callback is never written as a reference. -/
theorem Callback.ofMembers?_written (items : List (String × PathItem)) :
    Reference.ofMembers? (mapValues PathItem.toJson items) = none := by
  rw [Reference.ofMembers?_eq_none_iff]
  intro pointer found
  rw [get?_mapValues, Option.map_eq_some_iff] at found
  rcases found with ⟨⟨parameters, operations, extra⟩, _, written⟩
  rw [PathItem.toJson] at written
  cases written

/-- The path items in a callback mention a schema. -/
def Callback.MentionsBelow (enums : Bool) (schema : Schema) (callback : Callback) : Prop :=
  ∃ path item, (path, item) ∈ callback.expressions ∧ item.Mentions enums schema

/-- A callback, or a reference to one. -/
theorem Callback.roundTrips {callback : RefOr Callback}
    (maps : callback.DistinctMaps fun callback => Distinct callback.expressions)
    (settled : callback.Settled Callback.Settled)
    (each : ∀ own, callback = .item own → ∀ path item, (path, item) ∈ own.expressions →
      ∀ place path, RoundTrips PathItem.same PathItem.toJson PathItem.Mentions item
        (PathItem.ofJson place path item.toJson)) :
    RoundTrips (RefOr.same same) (RefOr.toJson toJson)
      (fun enums schema callback => callback.Inline (MentionsBelow enums schema)) callback
      (ofJson (callback.toJson toJson)) := by
  have read : ofJson (callback.toJson toJson) =
      RefOr.ofJson .callback ofMembers (callback.toJson toJson) := by
    cases callback with
    | reference target =>
        rw [RefOr.toJson, Reference.toJson_eq settled maps.1]
        exact ofJson_object_eq (List.nodup_cons.mpr ⟨settled, maps.1⟩)
    | item own =>
        rw [RefOr.toJson, toJson_eq]
        exact ofJson_object_eq (distinct_mapValues maps)
  rw [read]
  apply RefOr.roundTrips maps settled
  rintro inner rfl
  have all := RoundTrips.members (fun path => PathItem.ofJson (.callbackItem path) path) maps
    fun path item present => each inner rfl path item present (.callbackItem path) path
  have last : withoutReference (mapValues PathItem.toJson inner.expressions) =
      mapValues PathItem.toJson inner.expressions := by
    apply moveToEnd_of_last _ (distinct_mapValues maps)
    rw [keys_mapValues]
    exact settled
  refine ⟨_, toJson_eq inner, ofMembers?_written _, ?_⟩
  rw [last]
  apply RoundTrips.build Callback.mk all rfl
  · exact fun back _ => same_eq inner ⟨back⟩
  · intro back again
    rw [toJson_eq, toJson_eq, again]
  · exact fun _ _ => Iff.rfl
  · exact fun _ _ _ => Iff.rfl

/-! ## Operations -/

theorem keys_unlessNone_sublist (key : String) (entries : Members Json) :
    (keys (unlessNone key entries)).Sublist [key] := by
  cases entries <;> simp [unlessNone]

@[simp]
theorem get?_unlessNone (name key : String) (entries : Members Json) :
    get? name (unlessNone key entries) =
      if key = name then if entries = [] then none else some (.object entries) else none := by
  cases entries <;> simp [unlessNone, get?_cons]

/-- Members that are written only if there are any are read again, none where none are written. -/
theorem readIfObject_get?_unlessNone {α : Type} (read : String → Json → Except Fault α)
    (key : String) (entries : Members Json) :
    readIfObject read (get? key (unlessNone key entries)) = readEntries read entries := by
  rw [get?_unlessNone, if_pos rfl]
  cases entries <;> rfl

namespace Operation

/-- A schema stands in an operation, or in a path item in its callbacks. -/
def MentionsBelow (enums : Bool) (schema : Schema) (operation : Operation) : Prop :=
  operation.Mentions enums schema ∨ ∃ other ∈ operation.inner, other.Mentions enums schema

theorem mentionsBelow_iff {enums : Bool} {schema : Schema} {operation : Operation} :
    operation.MentionsBelow enums schema ↔
      ParametersMention enums schema operation.parameters ∨
        (∃ body, operation.requestBody = some body ∧
          body.Inline (RequestBody.Mentions enums schema)) ∨
        (∃ status response, (status, response) ∈ operation.responses ∧
          response.Inline (Response.Mentions enums schema)) ∨
        ∃ name callback, (name, callback) ∈ operation.callbacks ∧
          callback.Inline (Callback.MentionsBelow enums schema) := by
  constructor
  · rintro (own | ⟨other, inside, mentions⟩)
    · cases own with
      | parameters inside => exact Or.inl inside
      | requestBody present inside => exact Or.inr (Or.inl ⟨_, present, inside⟩)
      | response present inside => exact Or.inr (Or.inr (Or.inl ⟨_, _, present, inside⟩))
    · rcases exists_of_mem_inner inside with ⟨name, callback, path, called, listed⟩
      exact Or.inr (Or.inr (Or.inr ⟨name, .item callback, called, path, other, listed, mentions⟩))
  · rintro (inside | ⟨body, present, inside⟩ | ⟨status, response, present, inside⟩ |
      ⟨name, callback, called, inside⟩)
    · exact Or.inl (Mentions.parameters inside)
    · exact Or.inl (Mentions.requestBody present inside)
    · exact Or.inl (Mentions.response present inside)
    · cases callback with
      | reference => exact inside.elim
      | item callback =>
          rcases inside with ⟨path, item, listed, mentions⟩
          exact Or.inr ⟨item, mem_inner called listed, mentions⟩

/-- What is written behind the members that are left over. -/
def parts (operation : Operation) : Members Json :=
  Parameter.listMember operation.parameters ++
    optional "requestBody" (RefOr.toJson RequestBody.toJson) operation.requestBody ++
    [("responses", .object (mapValues (RefOr.toJson Response.toJson) operation.responses))] ++
    unlessNone "callbacks" (mapValues (RefOr.toJson Callback.toJson) operation.callbacks)

/-- The keys that come behind the members that are left over. -/
def partKeys : List String :=
  ["parameters", "requestBody", "responses", "callbacks"]

theorem of_mem_partKeys : ∀ key ∈ partKeys, key ∈ readKeys ∧ key ≠ "operationId" := by
  decide

theorem keys_parts_sublist (operation : Operation) : (keys operation.parts).Sublist partKeys := by
  have parameters := keys_unlessEmpty_sublist "parameters"
    (operation.parameters.map (RefOr.toJson Parameter.toJson))
  have requestBody := keys_optional_sublist "requestBody" (RefOr.toJson RequestBody.toJson)
    operation.requestBody
  have callbacks := keys_unlessNone_sublist "callbacks"
    (mapValues (RefOr.toJson Callback.toJson) operation.callbacks)
  rw [parts, keys_append, keys_append, keys_append]
  exact ((parameters.append requestBody).append (List.Sublist.refl ["responses"])).append callbacks

/-- What is written of an operation. -/
def written (operation : Operation) : Members Json :=
  optional "operationId" .string operation.operationId ++ operation.extra ++ operation.parts

section Written

variable {operation : Operation} (settled : operation.Settled) (distinct : Distinct operation.extra)

include settled

theorem toJson_eq (distinct : Distinct operation.extra) :
    operation.toJson = .object operation.written := by
  have known : ∀ key ∈ keys operation.parts, key ∈ readKeys ∧ key ≠ "operationId" :=
    fun key present => of_mem_partKeys key (operation.keys_parts_sublist.subset present)
  have front : Distinct
      (optional "operationId" Json.string operation.operationId ++ operation.extra) := by
    refine distinct_append_iff.mpr ⟨distinct_optional _ _ _, distinct, fun key present => ?_⟩
    rw [(mem_keys_optional.mp present).1]
    exact settled.extra "operationId" (by decide)
  have whole : Distinct operation.written := by
    refine distinct_append_iff.mpr
      ⟨front, (by decide : partKeys.Nodup).sublist operation.keys_parts_sublist,
        fun key present inside => ?_⟩
    rw [keys_append, List.mem_append] at present
    rcases present with own | extra
    · exact (known key inside).2 (mem_keys_optional.mp own).1
    · exact settled.extra key (known key inside).1 extra
  rcases operation with ⟨operationId, parameters, requestBody, responses, callbacks, extra⟩
  rw [toJson, callbackMembers_eq, extend_eq_append front]
  exact congrArg Json.object (extend_eq_append whole)

theorem get?_written {key : String} (part : key ∈ partKeys) :
    get? key operation.written = get? key operation.parts := by
  rcases of_mem_partKeys key part with ⟨known, other⟩
  rw [written, get?_append, get?_append, get?_eq_none_iff.mpr (settled.extra key known),
    get?_optional, if_neg (Ne.symm other), Option.none_or, Option.none_or]

theorem get?_operationId_written :
    get? "operationId" operation.written = operation.operationId.map Json.string := by
  have extra := get?_eq_none_iff.mpr (settled.extra "operationId" (by decide))
  have parts : get? "operationId" operation.parts = none := by
    apply get?_eq_none_iff.mpr
    intro present
    exact absurd (operation.keys_parts_sublist.subset present) (by decide)
  rw [written, get?_append, get?_append, extra, parts, get?_optional, if_pos rfl, Option.or_none,
    Option.or_none]

theorem operationId_written :
    (get? "operationId" operation.written).bind Json.string? = operation.operationId := by
  rw [get?_operationId_written settled]
  cases operation.operationId <;> rfl

theorem extraOf_written : extraOf operation.written = operation.extra := by
  have front : extraOf (optional "operationId" Json.string operation.operationId) = [] := by
    apply List.filter_eq_nil_iff.mpr
    intro member present
    simp [(mem_keys_optional.mp (mem_keys_of_mem present)).1, readKeys]
  have middle : extraOf operation.extra = operation.extra := by
    apply List.filter_eq_self.mpr
    intro member present
    have other : member.1 ∉ readKeys := fun known =>
      settled.extra member.1 known (mem_keys_of_mem present)
    simp [other]
  have back : extraOf operation.parts = [] := by
    apply List.filter_eq_nil_iff.mpr
    intro member present
    have known := of_mem_partKeys _ (operation.keys_parts_sublist.subset (mem_keys_of_mem present))
    simp [known.1]
  unfold extraOf at front middle back ⊢
  rw [written, List.filter_append, List.filter_append, front, middle, back, List.nil_append,
    List.append_nil]

/-- An operation is read from what is written of it, up to its parts. -/
theorem ofJson_written (path : String) (method : Method) :
    ofJson path method (.object operation.written) = (do
      let parameters ← Parameter.listOf
        (get? "parameters" (Parameter.listMember operation.parameters))
      let requestBody ← readOption
        (fun body => RequestBody.ofJson (body.toJson RequestBody.toJson)) operation.requestBody
      let responses ← readEntries (fun _ => Response.ofJson)
        (mapValues (RefOr.toJson Response.toJson) operation.responses)
      let callbacks ← readEntries (fun _ => Callback.ofJson)
        (mapValues (RefOr.toJson Callback.toJson) operation.callbacks)
      pure { operation with parameters, requestBody, responses, callbacks }) := by
  have parameters : get? "parameters" operation.written =
      get? "parameters" (Parameter.listMember operation.parameters) := by
    rw [get?_written settled (by decide)]
    simp [parts, get?_append, get?_cons]
  have requestBody : get? "requestBody" operation.written =
      operation.requestBody.map (RefOr.toJson RequestBody.toJson) := by
    rw [get?_written settled (by decide)]
    simp [parts, get?_append, get?_cons, Parameter.listMember]
  have responses : get? "responses" operation.written =
      some (.object (mapValues (RefOr.toJson Response.toJson) operation.responses)) := by
    rw [get?_written settled (by decide)]
    simp [parts, get?_append, get?_cons, Parameter.listMember]
  have callbacks : get? "callbacks" operation.written = get? "callbacks"
      (unlessNone "callbacks" (mapValues (RefOr.toJson Callback.toJson) operation.callbacks)) := by
    rw [get?_written settled (by decide)]
    simp [parts, get?_append, get?_cons, Parameter.listMember]
  have sent : (operation.requestBody.map (RefOr.toJson RequestBody.toJson)).mapM
      RequestBody.ofJson = readOption (fun body => RequestBody.ofJson
        (body.toJson RequestBody.toJson)) operation.requestBody := by
    cases operation.requestBody <;> rfl
  rw [ofJson_object_eq, parameters, requestBody, responses, callbacks, sent,
    readIfObject_get?_unlessNone, operationId_written settled, extraOf_written settled]
  rfl

end Written

theorem same_eq (left right : Operation) :
    left.same right =
      (left.operationId == right.operationId &&
        sameLists (RefOr.same Parameter.same) left.parameters right.parameters &&
        sameOption (RefOr.same RequestBody.same) left.requestBody right.requestBody &&
        Members.same (RefOr.same Response.same) left.responses right.responses &&
        Members.same (RefOr.same Callback.same) left.callbacks right.callbacks &&
        Json.sameMap left.extra right.extra) := by
  rcases left with ⟨operationId, parameters, requestBody, responses, callbacks, extra⟩
  rw [Operation.same, Bool.and_assoc _ _ (sameCallbacks callbacks right.callbacks),
    sameCallbacks_eq]

/-- An operation is written and read again as the path items in its callbacks are. -/
theorem roundTrips_of_inner {operation : Operation}
    (sound : SoundPart DistinctMaps Settled Mentions operation)
    (inner : ∀ other ∈ operation.inner, ∀ place path,
      RoundTrips PathItem.same PathItem.toJson PathItem.Mentions other
        (PathItem.ofJson place path other.toJson)) (path : String) (method : Method) :
    RoundTrips same toJson MentionsBelow operation (ofJson path method operation.toJson) := by
  rcases sound with ⟨maps, settled, mentioned⟩
  have parameters := Parameter.roundTrips_listOf ⟨maps.parameters, settled.parameters,
    fun enums schema inside => mentioned enums schema (Mentions.parameters inside)⟩
  have requestBody := RoundTrips.option fun body found =>
    RequestBody.roundTrips ⟨maps.requestBody body found, settled.requestBody body found,
      fun enums schema inside => mentioned enums schema (Mentions.requestBody found inside)⟩
  have responses := RoundTrips.members (fun _ => Response.ofJson) maps.statuses
    fun status response present =>
      Response.roundTrips ⟨maps.responses status response present,
        settled.responses status response present,
        fun enums schema inside => mentioned enums schema (Mentions.response present inside)⟩
  have callbacks := RoundTrips.members (fun _ => Callback.ofJson) maps.names
    fun name callback called =>
      Callback.roundTrips (maps.callbacks name callback called)
        (settled.callbacks name callback called) fun own same path item listed =>
          inner item (mem_inner (same ▸ called) listed)
  rw [toJson_eq settled maps.extra.1, ofJson_written settled]
  apply RoundTrips.build
    (fun parts => { operation with
      parameters := parts.1, requestBody := parts.2.1, responses := parts.2.2.1,
      callbacks := parts.2.2.2 })
    (parameters.pair (requestBody.pair (responses.pair callbacks)))
  · generalize Parameter.listOf _ = first
    generalize readOption _ operation.requestBody = second
    generalize readEntries (fun _ => Response.ofJson) _ = third
    generalize readEntries (fun _ => Callback.ofJson) _ = fourth
    cases first with
    | error => rfl
    | ok =>
        cases second with
        | error => rfl
        | ok =>
            cases third with
            | error => rfl
            | ok => cases fourth <;> rfl
  · intro back _
    simp only [same_eq, beq_self_eq_true, Json.sameMap_refl maps.extra, Bool.true_and,
      Bool.and_true, Bool.and_assoc]
  · intro back again
    simp only [Prod.mk.injEq] at again
    rcases operation with ⟨operationId, parameters, requestBody, responses, callbacks, extra⟩
    rw [toJson, toJson, callbackMembers_eq, callbackMembers_eq, Parameter.listMember,
      Parameter.listMember, again.1, optional_congr _ again.2.1, again.2.2.1, again.2.2.2]
  · exact fun _ _ => mentionsBelow_iff
  · exact fun _ _ _ => mentionsBelow_iff

end Operation

/-! ## Path items -/

theorem sameOperations_eq (left right : List (Method × Operation)) :
    sameOperations left right =
      sameLists (fun entry other => entry.1 == other.1 && entry.2.same other.2) left right := by
  induction left generalizing right with
  | nil => cases right <;> simp [sameOperations, sameLists]
  | cons entry rest ih =>
      cases right with
      | nil => simp [sameOperations, sameLists]
      | cons other others => rw [sameOperations, sameLists, ih]

theorem operationMembers_eq (operations : List (Method × Operation)) :
    operationMembers operations =
      operations.map fun entry => (entry.1.key, entry.2.toJson) := by
  induction operations with
  | nil =>
      rw [operationMembers]
      rfl
  | cons entry rest ih =>
      rw [operationMembers, ih]
      rfl

theorem Method.key_injective : Function.Injective key := by
  intro left right same
  cases left <;> cases right <;> first | rfl | exact absurd same (by decide)

theorem get?_operationMembers (method : Method) (operations : List (Method × Operation)) :
    get? method.key (operationMembers operations) =
      (get? method operations).map Operation.toJson := by
  induction operations with
  | nil =>
      rw [operationMembers]
      rfl
  | cons entry rest ih =>
      rcases entry with ⟨other, operation⟩
      rw [operationMembers, get?_cons, get?_cons, ih]
      by_cases same : other = method
      · simp [same]
      · simp [same, Method.key_injective.ne same]

/-- Read an operation from what is written of it. -/
def Operation.reread (path : String) (entry : Method × Operation) :
    Except Fault (Method × Operation) :=
  (ofJson path entry.1 entry.2.toJson).map fun operation => (entry.1, operation)

/-- Operations that are written in the order of the methods are read one by one. -/
theorem operationsIn_eq_mapM (path : String) {members : Members Json} {methods : List Method}
    {operations : List (Method × Operation)} (order : (keys operations).Sublist methods)
    (distinct : methods.Nodup)
    (found : ∀ method ∈ methods, get? method.key members =
      (get? method operations).map Operation.toJson) :
    operationsIn path members methods = operations.mapM (Operation.reread path) := by
  induction methods generalizing operations with
  | nil =>
      obtain rfl : operations = [] := List.map_eq_nil_iff.mp (List.sublist_nil.mp order)
      rfl
  | cons method methods ih =>
      rcases List.nodup_cons.mp distinct with ⟨absent, apart⟩
      have own := found method List.mem_cons_self
      have others := fun other present => found other (List.mem_cons_of_mem method present)
      rw [operationsIn, operationAt_eq_mapM, own]
      rcases List.sublist_cons_iff.mp order with later | ⟨names, split, later⟩
      · have missing : get? method operations = none :=
          get?_eq_none_iff.mpr fun present => absent (later.subset present)
        rw [missing, ih later apart others]
        cases operations.mapM (Operation.reread path) <;> rfl
      · rcases List.map_eq_cons_iff.mp split with ⟨⟨first, operation⟩, rest, rfl, rfl, rfl⟩
        have here : ∀ other ∈ methods, get? other.key members =
            (get? other rest).map Operation.toJson := by
          intro other present
          have differs : first ≠ other := fun same => absent (same ▸ present)
          rw [others other present, get?_cons, if_neg differs]
        rw [ih later apart here, get?_cons, if_pos rfl, List.mapM_cons]
        simp only [Option.map_some, Option.mapM_some, Operation.reread]
        cases Operation.ofJson path first operation.toJson with
        | error => rfl
        | ok result => rfl

namespace PathItem

theorem mentions_iff {enums : Bool} {schema : Schema} {item : PathItem} :
    item.Mentions enums schema ↔
      ParametersMention enums schema item.parameters ∨
        ∃ entry ∈ item.operations, entry.2.MentionsBelow enums schema := by
  constructor
  · intro mentions
    cases mentions with
    | parameters inside => exact Or.inl inside
    | operation present inside => exact Or.inr ⟨_, present, Or.inl inside⟩
    | inner present inside =>
        rcases exists_of_mem_inner present with ⟨method, operation, there, listed⟩
        exact Or.inr ⟨_, there, Or.inr ⟨_, listed, inside⟩⟩
  · rintro (inside | ⟨⟨method, operation⟩, present, own | ⟨other, listed, inside⟩⟩)
    · exact Mentions.parameters inside
    · exact Mentions.operation present own
    · exact Mentions.inner (mem_inner present listed) inside

/-- What is written behind the members that are left over. -/
def parts (item : PathItem) : Members Json :=
  Parameter.listMember item.parameters ++ operationMembers item.operations

/-- The keys that come behind the members that are left over. -/
def partKeys : List String :=
  "parameters" :: Method.all.map Method.key

theorem parameters_ne_key (method : Method) : "parameters" ≠ method.key := by
  cases method <;> decide

section Written

variable {item : PathItem} (order : (keys item.operations).Sublist Method.all)
  (apart : ∀ key ∈ partKeys, key ∉ keys item.extra)

include order

theorem keys_parts_sublist : (keys item.parts).Sublist partKeys := by
  have operations : keys (operationMembers item.operations) =
      (keys item.operations).map Method.key := by
    rw [operationMembers_eq]
    simp [keys]
  rw [parts, keys_append, operations]
  exact (keys_unlessEmpty_sublist "parameters" _).append (order.map Method.key)

include apart

theorem toJson_eq (distinct : Distinct item.extra) :
    item.toJson = .object (item.extra ++ item.parts) := by
  have whole : Distinct (item.extra ++ item.parts) := by
    refine distinct_append_iff.mpr
      ⟨distinct, (by decide : partKeys.Nodup).sublist (keys_parts_sublist order), ?_⟩
    intro key present inside
    exact apart key ((keys_parts_sublist order).subset inside) present
  rcases item with ⟨parameters, operations, extra⟩
  rw [toJson]
  exact congrArg Json.object (extend_eq_append whole)

omit order in
theorem get?_written {key : String} (part : key ∈ partKeys) :
    get? key (item.extra ++ item.parts) = get? key item.parts := by
  rw [get?_append, get?_eq_none_iff.mpr (apart key part), Option.none_or]

theorem extraOf_written : extraOf (item.extra ++ item.parts) = item.extra := by
  have front : extraOf item.extra = item.extra := by
    apply List.filter_eq_self.mpr
    intro member present
    have other : member.1 ∉ partKeys := fun known =>
      apart member.1 known (mem_keys_of_mem present)
    simpa [partKeys] using other
  have back : extraOf item.parts = [] := by
    apply List.filter_eq_nil_iff.mpr
    intro member present
    have known := (keys_parts_sublist order).subset (mem_keys_of_mem present)
    simpa [partKeys, or_iff_not_imp_left] using known
  unfold extraOf at front back ⊢
  rw [List.filter_append, front, back, List.append_nil]

omit order in
theorem get?_parameters_written : get? "parameters" (item.extra ++ item.parts) =
    get? "parameters" (Parameter.listMember item.parameters) := by
  have absent : "parameters" ∉ keys (operationMembers item.operations) := by
    rw [operationMembers_eq]
    intro present
    rcases mem_keys_iff.mp present with ⟨value, there⟩
    rcases List.mem_map.mp there with ⟨entry, _, same⟩
    exact parameters_ne_key entry.1 (congrArg Prod.fst same).symm
  rw [get?_written apart List.mem_cons_self, parts, get?_append, get?_eq_none_iff.mpr absent,
    Option.or_none]

omit order in
theorem get?_key_written (method : Method) : get? method.key (item.extra ++ item.parts) =
    (get? method item.operations).map Operation.toJson := by
  have key : method.key ∈ partKeys :=
    List.mem_cons_of_mem _ (List.mem_map_of_mem method.mem_all)
  rw [get?_written apart key, parts, get?_append, Parameter.listMember, get?_unlessEmpty,
    if_neg (parameters_ne_key method), Option.none_or, get?_operationMembers]

/-- A path item is read from what is written of it, up to its parts. -/
theorem ofJson_written (place : Place) (path : String) :
    ofJson place path (.object (item.extra ++ item.parts)) = (do
      let parameters ← Parameter.listOf (get? "parameters" (Parameter.listMember item.parameters))
      let operations ← item.operations.mapM (Operation.reread path)
      pure ⟨parameters, operations, item.extra⟩) := by
  rw [ofJson_object_eq, get?_parameters_written apart,
    operationsIn_eq_mapM path order (by decide) fun method _ => get?_key_written apart method,
    extraOf_written order apart]

end Written

/-- A path item is written and read again as the path items inside it are. -/
theorem roundTrips_of_inner {item : PathItem} (sound : item.Sound)
    (inner : ∀ other ∈ item.inner, ∀ place path,
      RoundTrips same toJson Mentions other (ofJson place path other.toJson))
    (place : Place) (path : String) :
    RoundTrips same toJson Mentions item (ofJson place path item.toJson) := by
  rcases sound with ⟨⟨parameterMaps, operationMaps, extraMaps, _⟩,
    ⟨parameterSettled, order, operationSettled, apart, _⟩, mentioned⟩
  have parameters := Parameter.roundTrips_listOf ⟨parameterMaps, parameterSettled,
    fun enums schema inside => mentioned enums schema (Mentions.parameters inside)⟩
  have operations : ∀ entry ∈ item.operations,
      RoundTrips (fun entry other => entry.1 == other.1 && entry.2.same other.2)
        (fun entry => (entry.1.key, entry.2.toJson))
        (fun enums schema entry => entry.2.MentionsBelow enums schema) entry
        (Operation.reread path entry) := by
    rintro ⟨method, operation⟩ present
    have sound : SoundPart Operation.DistinctMaps Operation.Settled Operation.Mentions operation :=
      ⟨operationMaps method operation present, operationSettled method operation present,
        fun enums schema inside => mentioned enums schema (Mentions.operation present inside)⟩
    have own := Operation.roundTrips_of_inner sound
      (fun other listed => inner other (mem_inner present listed)) path method
    apply RoundTrips.build (fun operation => (method, operation)) own rfl
    · exact fun back _ => by rw [beq_self_eq_true, Bool.true_and]
    · intro back again
      rw [again]
    · exact fun _ _ => Iff.rfl
    · exact fun _ _ _ => Iff.rfl
  rw [toJson_eq order apart extraMaps.1, ofJson_written order apart]
  apply RoundTrips.build (fun parts => ⟨parts.1, parts.2, item.extra⟩)
    (parameters.pair (RoundTrips.list operations))
  · cases Parameter.listOf (get? "parameters" (Parameter.listMember item.parameters)) with
    | error => rfl
    | ok => cases item.operations.mapM (Operation.reread path) <;> rfl
  · intro back _
    rcases item with ⟨parameters, operations, extra⟩
    rw [same, sameOperations_eq, Json.sameMap_refl extraMaps, Bool.and_true]
  · intro back again
    rw [Prod.mk.injEq] at again
    rcases item with ⟨parameters, operations, extra⟩
    rw [toJson, toJson, operationMembers_eq, operationMembers_eq, Parameter.listMember,
      Parameter.listMember, again.1, again.2]
  · exact fun _ _ => mentions_iff
  · exact fun _ _ _ => mentions_iff

/-- A path item, at any place. -/
theorem Sound.roundTrips {item : PathItem} (sound : item.Sound) (place : Place) (path : String) :
    RoundTrips same toJson Mentions item (ofJson place path item.toJson) := by
  induction item using PathItem.induction generalizing place path with
  | step item ih =>
      apply roundTrips_of_inner sound
      intro other present
      rcases sound with ⟨⟨_, _, _, innerMaps⟩, ⟨_, _, _, _, innerSettled⟩, mentioned⟩
      exact ih other present ⟨innerMaps other present, innerSettled other present,
        fun enums schema inside => mentioned enums schema (Mentions.inner present inside)⟩

end PathItem

end SchemaLift
