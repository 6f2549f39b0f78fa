import SchemaLift.Proofs.Document.Contents

/-!
# Parameters, written and read again

The name and the location of a parameter are written first. Where one of them is no text, it was
left over, and it takes the place of the text. So it comes first among the members that are left
over when the parameter is read again (`Parameter.rereadExtra`): the parameter is an equal one, and
the same is written of it.
-/

namespace SchemaLift

open Members

namespace Parameter

/-- The name and the location, as they are written. -/
def identity (parameter : Parameter) : Members Json :=
  [("name", .string parameter.name), ("in", .string parameter.location)]

/-- What is left over when the parameter is read again: a name or a location that is no text comes
first. -/
def rereadExtra (parameter : Parameter) : Members Json :=
  moveToEnd "$ref" ((extend parameter.identity parameter.extra).filter leaves)

section Reread

variable {parameter : Parameter}

theorem extend_identity (distinct : Distinct parameter.extra) :
    extend parameter.identity parameter.extra =
      [("name", (get? "name" parameter.extra).getD (.string parameter.name)),
        ("in", (get? "in" parameter.extra).getD (.string parameter.location))] ++
        parameter.extra.filter fun member => !(["name", "in"].contains member.1) :=
  extend_eq (by simp [identity, Distinct]) distinct

theorem distinct_extend_identity (distinct : Distinct parameter.extra) :
    Distinct (extend parameter.identity parameter.extra) := by
  rw [extend_identity distinct]
  refine distinct_append_iff.mpr ⟨by simp [Distinct], distinct.filter _, fun key present => ?_⟩
  intro inside
  rcases mem_keys_iff.mp inside with ⟨value, there⟩
  have other := (List.mem_filter.mp there).2
  simp_all

variable (settled : parameter.Settled) (distinct : Distinct parameter.extra)

include distinct

omit settled in
/-- A name and a location are left over as they were if they are no texts. -/
theorem leaves_getD_iff {key : String} (text : String) (value : Json) (known : key ∈ ["name", "in"])
    (untyped : ∀ value, (key, value) ∈ parameter.extra → value.string? = none) :
    (value = (get? key parameter.extra).getD (.string text) ∧ leaves (key, value) = true) ↔
      (key, value) ∈ parameter.extra := by
  have differs : key ≠ "schema" ∧ key ≠ "content" := by
    rcases List.mem_pair.mp known with rfl | rfl <;> decide
  have leaves : leaves (key, value) = !value.string?.isSome := by
    simp only [List.mem_cons, List.not_mem_nil, or_false] at known
    simp [Parameter.leaves, differs, known]
  rw [leaves, ← distinct.get?_eq_some_iff]
  constructor
  · rintro ⟨rfl, text⟩
    cases found : get? key parameter.extra with
    | none => simp [found, Json.string?] at text
    | some value => rfl
  · intro found
    rw [found, untyped value (mem_of_get?_eq_some found)]
    exact ⟨rfl, rfl⟩

include settled

omit distinct in
theorem leaves_of_mem {member : String × Json} (present : member ∈ parameter.extra)
    (other : ["name", "in"].contains member.1 = false) : leaves member = true := by
  have there := mem_keys_of_mem present
  have differs : member.1 ≠ "schema" ∧ member.1 ≠ "content" := by
    constructor
    · intro same
      exact settled.extra.keys "schema" (by simp) (same ▸ there)
    · intro same
      exact settled.extra.keys "content" (by simp) (same ▸ there)
  rw [leaves, other]
  simp [differs]

theorem mem_rereadExtra {member : String × Json} :
    member ∈ parameter.rereadExtra ↔ member ∈ parameter.extra := by
  rcases member with ⟨key, value⟩
  rw [rereadExtra, mem_moveToEnd ((distinct_extend_identity distinct).filter _),
    extend_identity distinct, List.mem_filter]
  by_cases named : key = "name"
  · subst named
    have own := leaves_getD_iff distinct parameter.name value (by simp) fun value present =>
      (settled.name value present).2
    simpa using own
  · by_cases located : key = "in"
    · subst located
      have own := leaves_getD_iff distinct parameter.location value (by simp)
        fun value present => (settled.location value present).2
      simpa using own
    · have own : (key, value) ∈ parameter.extra → leaves (key, value) = true := fun present =>
        leaves_of_mem settled present (by simp [named, located])
      simpa [named, located] using own

omit settled in
theorem distinct_rereadExtra : Distinct parameter.rereadExtra :=
  ((distinct_extend_identity distinct).filter _).moveToEnd _

omit distinct in
theorem sameMap_rereadExtra (maps : Json.DistinctMap parameter.extra) :
    Json.sameMap parameter.extra parameter.rereadExtra = true := by
  have reread := distinct_rereadExtra maps.1
  rw [Json.sameMap_iff_matches]
  constructor
  · apply List.Perm.length_eq
    exact (List.perm_ext_iff_of_nodup maps.1.of_map reread.of_map).mpr fun member =>
      (mem_rereadExtra settled maps.1).symm
  · intro key value present
    have there := (mem_rereadExtra settled maps.1).mpr present
    exact ⟨value, reread.get?_eq_some there, Json.same_refl (maps.2 key value present)⟩

/-- The same is written of what is left over when the parameter is read again. -/
theorem extend_identity_rereadExtra :
    extend parameter.identity parameter.rereadExtra =
      extend parameter.identity parameter.extra := by
  have reread := distinct_rereadExtra distinct
  have found : ∀ key, get? key parameter.rereadExtra = get? key parameter.extra := fun key =>
    reread.get?_congr distinct fun _ => mem_rereadExtra settled distinct
  have front : ((extend parameter.identity parameter.extra).filter leaves).filter
      (fun member => !(["name", "in"].contains member.1)) =
        parameter.extra.filter fun member => !(["name", "in"].contains member.1) := by
    rw [extend_identity distinct, List.filter_append, List.filter_append, List.filter_filter,
      List.filter_filter, List.filter_filter]
    have dropped : List.filter
        (fun member : String × Json => !(["name", "in"].contains member.1) && leaves member)
        [("name", (get? "name" parameter.extra).getD (.string parameter.name)),
          ("in", (get? "in" parameter.extra).getD (.string parameter.location))] = [] := by
      simp
    rw [dropped, List.nil_append]
    apply List.filter_congr
    intro member present
    cases other : ["name", "in"].contains member.1 with
    | true => rfl
    | false => simp [leaves_of_mem settled present other]
  have rest : (parameter.rereadExtra.filter fun member => !(["name", "in"].contains member.1)) =
      parameter.extra.filter fun member => !(["name", "in"].contains member.1) := by
    rw [rereadExtra, filter_moveToEnd ((distinct_extend_identity distinct).filter _), front,
      ← filter_moveToEnd distinct, settled.extra.last]
  rw [extend_identity distinct, ← rest, ← found, ← found]
  exact extend_eq (by simp [identity, Distinct]) reread

end Reread

section Written

variable {parameter : Parameter} (settled : parameter.Settled) (distinct : Distinct parameter.extra)

/-- What is written behind the members that are left over. -/
def parts (parameter : Parameter) : Members Json :=
  optional "schema" Schema.toJson parameter.schema ++
    optional "content" writeContent parameter.content

theorem of_mem_keys_parts {key : String} (present : key ∈ keys parameter.parts) :
    key = "schema" ∨ key = "content" := by
  rw [parts, keys_append, List.mem_append, mem_keys_optional, mem_keys_optional] at present
  exact present.imp And.left And.left

include distinct

theorem mem_of_mem_extend_identity {key : String} {value : Json}
    (present : (key, value) ∈ extend parameter.identity parameter.extra) :
    key = "name" ∨ key = "in" ∨ (key, value) ∈ parameter.extra := by
  rw [extend_identity distinct] at present
  rcases List.mem_append.mp present with front | rest
  · rcases List.mem_pair.mp front with same | same
    · exact Or.inl (congrArg Prod.fst same)
    · exact Or.inr (Or.inl (congrArg Prod.fst same))
  · exact Or.inr (Or.inr (List.mem_of_mem_filter rest))

include settled

theorem distinct_written :
    Distinct (extend parameter.identity parameter.extra ++ parameter.parts) := by
  refine distinct_append_iff.mpr
    ⟨distinct_extend_identity distinct, ?_, fun key present inside => ?_⟩
  · refine distinct_append_iff.mpr ⟨distinct_optional _ _ _, distinct_optional _ _ _, ?_⟩
    intro key first second
    rw [(mem_keys_optional.mp first).1] at second
    exact absurd (mem_keys_optional.mp second).1 (by decide)
  · rcases mem_keys_iff.mp present with ⟨value, there⟩
    have part := of_mem_keys_parts inside
    rcases mem_of_mem_extend_identity distinct there with rfl | rfl | extra
    · exact absurd part (by decide)
    · exact absurd part (by decide)
    · apply settled.extra.keys key _ (mem_keys_of_mem extra)
      simpa using part

theorem toJson_eq : parameter.toJson =
    .object (extend parameter.identity parameter.extra ++ parameter.parts) :=
  congrArg Json.object (extend_eq_append (distinct_written settled distinct))

theorem ofMembers?_written : Reference.ofMembers?
    (extend parameter.identity parameter.extra ++ parameter.parts) = none := by
  rw [Reference.ofMembers?_eq_none_iff]
  intro pointer found
  rcases List.mem_append.mp (mem_of_get?_eq_some found) with front | part
  · rcases mem_of_mem_extend_identity distinct front with same | same | extra
    · exact absurd same (by decide)
    · exact absurd same (by decide)
    · exact settled.extra.inline pointer extra
  · exact absurd (of_mem_keys_parts (mem_keys_of_mem part)) (by decide)

theorem get?_written {key : String} (part : key ∈ ["schema", "content"]) :
    get? key (extend parameter.identity parameter.extra ++ parameter.parts) =
      get? key parameter.parts := by
  have absent : get? key (extend parameter.identity parameter.extra) = none := by
    apply get?_eq_none_iff.mpr
    intro present
    rcases mem_keys_iff.mp present with ⟨value, there⟩
    rcases mem_of_mem_extend_identity distinct there with rfl | rfl | extra
    · exact absurd part (by decide)
    · exact absurd part (by decide)
    · exact settled.extra.keys key part (mem_keys_of_mem extra)
  rw [get?_append, absent, Option.none_or]

omit settled distinct in
/-- A text that is written is read again, and the empty one where no text was left over. -/
theorem getD_bind_string? {found : Option Json} {text : String}
    (untyped : ∀ value, found = some value → text = "" ∧ value.string? = none) :
    ((some (found.getD (.string text))).bind Json.string?).getD "" = text := by
  cases found with
  | none => rfl
  | some value =>
      rcases untyped value rfl with ⟨rfl, none⟩
      simp [none]

/-- A parameter is read from what is written of it, up to its schemas. -/
theorem ofMembers_written :
    ofMembers (withoutReference (extend parameter.identity parameter.extra ++ parameter.parts)) =
      (do pure ((← readSchema? (parameter.schema.map Schema.toJson)),
        (← readContent (parameter.content.map writeContent))) :
          Except Fault (Option Schema × Option Content)).map fun parts =>
        { parameter with
          schema := parts.1, content := parts.2, extra := parameter.rereadExtra } := by
  have whole := distinct_written settled distinct
  have schema : get? "schema" parameter.parts = parameter.schema.map Schema.toJson := by
    simp [parts, get?_append]
  have content : get? "content" parameter.parts = parameter.content.map writeContent := by
    simp [parts, get?_append]
  have name : get? "name" (extend parameter.identity parameter.extra ++ parameter.parts) =
      some ((get? "name" parameter.extra).getD (.string parameter.name)) := by
    rw [extend_identity distinct]
    rfl
  have location : get? "in" (extend parameter.identity parameter.extra ++ parameter.parts) =
      some ((get? "in" parameter.extra).getD (.string parameter.location)) := by
    rw [extend_identity distinct]
    rfl
  have extra : (moveToEnd "$ref"
      (extend parameter.identity parameter.extra ++ parameter.parts)).filter leaves =
        parameter.rereadExtra := by
    have none : parameter.parts.filter leaves = [] := by
      apply List.filter_eq_nil_iff.mpr
      intro member present
      rcases of_mem_keys_parts (mem_keys_of_mem present) with same | same <;> simp [leaves, same]
    rw [filter_moveToEnd whole, List.filter_append, none, List.append_nil, rereadExtra]
  rw [withoutReference, ofMembers_eq (whole.moveToEnd _), get?_moveToEnd whole,
    get?_moveToEnd whole, get?_moveToEnd whole, get?_moveToEnd whole, extra, name, location,
    get?_written settled distinct (by simp), get?_written settled distinct (by simp), schema,
    content, getD_bind_string? fun value found => settled.name value (mem_of_get?_eq_some found),
    getD_bind_string? fun value found => settled.location value (mem_of_get?_eq_some found)]
  cases readSchema? (parameter.schema.map Schema.toJson) with
  | error => rfl
  | ok => cases readContent (parameter.content.map writeContent) <;> rfl

end Written

/-- A parameter, or a reference to one. -/
theorem roundTrips {parameter : RefOr Parameter}
    (sound : SoundPart (RefOr.DistinctMaps DistinctMaps) (RefOr.Settled Settled)
      (fun enums schema parameter => parameter.Inline (Mentions enums schema)) parameter) :
    RoundTrips (RefOr.same same) (RefOr.toJson toJson)
      (fun enums schema parameter => parameter.Inline (Mentions enums schema)) parameter
      (RefOr.ofJson .parameter ofMembers (parameter.toJson toJson)) := by
  apply RefOr.roundTrips sound.maps sound.settled
  rintro inner rfl
  rcases sound with ⟨⟨contentMaps, extraMaps⟩, settled, mentioned⟩
  refine ⟨_, toJson_eq settled extraMaps.1, ofMembers?_written settled extraMaps.1, ?_⟩
  have schema := roundTrips_readSchema? true fun schema found =>
    mentioned true schema (Or.inl ⟨found, rfl⟩)
  have content := roundTrips_readContent ⟨contentMaps, settled.content, fun enums schema inside =>
    mentioned enums schema (Or.inr inside)⟩
  apply RoundTrips.build _ (schema.pair content) (ofMembers_written settled extraMaps.1)
  · intro back _
    have extra := sameMap_rereadExtra settled extraMaps
    simp only [same, extra, beq_self_eq_true, Bool.true_and, Bool.and_true]
  · intro back again
    rw [Prod.mk.injEq] at again
    change Json.object (extend (extend inner.identity inner.rereadExtra)
      (optional "schema" Schema.toJson back.1 ++ optional "content" writeContent back.2)) =
        .object (extend (extend inner.identity inner.extra) inner.parts)
    rw [extend_identity_rereadExtra settled extraMaps.1, optional_congr _ again.1,
      optional_congr _ again.2]
    rfl
  · exact fun _ _ => Iff.rfl
  · exact fun _ _ _ => Iff.rfl

/-- A list of parameters that is written only if there are any. -/
theorem roundTrips_listOf {parameters : List (RefOr Parameter)}
    (sound : SoundPart
      (fun parameters => ∀ parameter ∈ parameters, RefOr.DistinctMaps DistinctMaps parameter)
      (fun parameters => ∀ parameter ∈ parameters, RefOr.Settled Settled parameter)
      ParametersMention parameters) :
    RoundTrips (sameLists (RefOr.same same)) (List.map (RefOr.toJson toJson)) ParametersMention
      parameters (listOf (get? "parameters" (listMember parameters))) := by
  have each : ∀ parameter ∈ parameters, RoundTrips (RefOr.same same) (RefOr.toJson toJson)
      (fun enums schema parameter => parameter.Inline (Mentions enums schema)) parameter
      (RefOr.ofJson .parameter ofMembers (parameter.toJson toJson)) := by
    intro parameter present
    apply roundTrips
    exact ⟨sound.maps parameter present, sound.settled parameter present,
      fun enums schema inside => sound.mentioned enums schema ⟨parameter, present, inside⟩⟩
  have read : listOf (get? "parameters" (listMember parameters)) = parameters.mapM fun parameter =>
      RefOr.ofJson .parameter ofMembers (parameter.toJson toJson) := by
    rw [listMember, get?_unlessEmpty, if_pos rfl]
    cases parameters with
    | nil => rfl
    | cons parameter rest =>
        rw [if_neg (by simp), listOf, List.mapM_map]
        rfl
  rw [read]
  exact RoundTrips.list each

end Parameter

end SchemaLift
