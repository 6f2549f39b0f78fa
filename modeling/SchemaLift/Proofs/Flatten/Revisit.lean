import SchemaLift.Proofs.Flatten.Growth

/-!
# Passes that move nothing

If nothing in a document would be extracted, a pass over it registers nothing and shares nothing,
and all it does to schemas is hoisting (`exists_revisits`). What another pass leaves is such a
document (`Flattens.quiet_outside`, `Flattens.quiet_components`), under every policy that is not
stronger.
-/

namespace SchemaLift.Flatten

/-- A visit by which nothing is moved. -/
abbrev Hoists (policy : Policy) : Role → Schema → Schema → Prop :=
  Visited policy fun _ _ => False

/-- Nothing has been moved, and the component schemas have the same names. -/
structure Unmoved (before after : State) : Prop where
  keys : Members.keys after.registry.schemas = Members.keys before.registry.schemas
  extractions : after.extractions = before.extractions
  registered : after.report.registered = before.report.registered
  reused : after.report.reused = before.report.reused

theorem Unmoved.refl (state : State) : Unmoved state state :=
  ⟨rfl, rfl, rfl, rfl⟩

theorem Unmoved.trans {first second third : State} (left : Unmoved first second)
    (right : Unmoved second third) : Unmoved first third :=
  ⟨right.keys.trans left.keys, right.extractions.trans left.extractions,
    right.registered.trans left.registered, right.reused.trans left.reused⟩

theorem Unmoved.isNoop {before after : State} (unmoved : Unmoved before after)
    (noop : after.report.isNoop = true) : before.report.isNoop = true := by
  simpa only [Report.isNoop, unmoved.registered, unmoved.reused] using noop

theorem Unmoved.of_sameSchemas {before after : State} (same : before.SameSchemas after) :
    Unmoved before after :=
  ⟨by rw [same.registry], same.extractions, same.registered, same.reused⟩

theorem Unmoved.withComponent {before after : State} (unmoved : Unmoved before after)
    (name : String) (content : Schema) : Unmoved before (after.withComponent name content) :=
  ⟨(keys_withComponent after name content).trans unmoved.keys, unmoved.extractions,
    unmoved.registered, unmoved.reused⟩

/-! ## Schemas that rest -/

/-- No schema here or below would be extracted, when the discriminator value of each combination has
been lifted before its parts are looked at. -/
inductive Rests (policy : Policy) : Role → Schema → Prop
  | intro {role : Role} {schema : Schema} (stays : schema.extractedAt policy role = false)
      (below : ∀ edge child, (edge, child) ∈ schema.hoisted.children →
        Rests policy edge.role child) : Rests policy role schema

section Rests

variable {policy : Policy} {role : Role} {schema result : Schema}

/-- Where nothing would be extracted, nothing is extracted after hoisting. -/
theorem Quiet.rests (quiet : Quiet policy role schema) : Rests policy role schema := by
  induction schema using Schema.induction_hoisted generalizing role with
  | step schema ih =>
      have own := quiet
      rcases own with ⟨stays, _⟩
      exact Rests.intro stays fun edge child below => ih edge child below (quiet.child below)

theorem Rests.not_extractedAt (rests : Rests policy role schema) :
    schema.extractedAt policy role = false := by
  rcases rests with ⟨stays, _⟩
  exact stays

theorem Rests.child (rests : Rests policy role schema) {edge : Edge} {child : Schema}
    (below : (edge, child) ∈ schema.hoisted.children) : Rests policy edge.role child := by
  rcases rests with ⟨_, each⟩
  exact each edge child below

theorem rests_reference (policy : Policy) (role : Role) (target : Reference) :
    Rests policy role (.reference target) :=
  (quiet_reference policy role target).rests

/-- Where nothing is moved, a schema rests. -/
theorem Hoists.rests (visited : Hoists policy role schema result) : Rests policy role schema := by
  induction schema using Schema.induction_hoisted generalizing role result with
  | step schema ih =>
      cases visited with
      | reference => exact rests_reference policy role _
      | moved _ registered => exact registered.elim
      | kept _ stays visited =>
          refine Rests.intro stays fun edge child below => ?_
          rcases visited.exists_right below with ⟨other, _, fits⟩
          exact ih edge child below fits

/-- Where nothing is moved from an ordinary position, nothing would be extracted from there. -/
theorem Hoists.quiet_of_free (visited : Hoists policy role schema result)
    (free : role = .slot ∨ role = .alternative) : Quiet policy role schema := by
  induction schema using Schema.induction generalizing role result with
  | step schema ih =>
      cases visited with
      | reference => exact quiet_reference policy role _
      | moved _ registered => exact registered.elim
      | kept _ stays visited =>
          have inside := Schema.isExtractable_of_extractedAt free stays
          rw [Schema.hoisted_of_isExtractable inside] at visited
          apply Quiet.intro stays
          intro edge child present
          rcases Schema.role_or_reference_of_isExtractable inside present with slot | ⟨target, rfl⟩
          · rcases visited.exists_right present with ⟨other, _, fits⟩
            exact ih edge child present fits (Or.inl slot)
          · exact quiet_reference policy edge.role target

/-- Nothing is inline, if no option says more, in a schema that rests under any policy. -/
theorem Rests.quiet (rests : Rests policy role schema) : Quiet {} role schema := by
  induction schema using Schema.induction_hoisted generalizing role with
  | step schema ih =>
      rcases rests with ⟨stays, below⟩
      refine Quiet.intro ?_ fun edge child present => ?_
      · rw [Bool.eq_false_iff] at stays ⊢
        have within := Policy.default_within policy
        exact fun extracted => stays (Schema.extractedAt_of_imp within
          (Schema.isExtractable_within within) (fun shape same => ⟨shape, same⟩) extracted)
      obtain ⟨hoistedChild, there, lifted, rfl, elsewhere⟩ :=
        schema.related_children_hoisted.exists_right present
      have quiet := ih edge _ there (below edge _ there)
      by_cases part : edge.role = .part
      · rw [part] at quiet ⊢
        rcases quiet with ⟨_, each⟩
        exact Quiet.intro (by simp [Schema.extractedAt]) (by simpa using each)
      · rwa [elsewhere part, Schema.bare_not_lifted] at quiet

end Rests

/-! ## The account -/

/-- The account of a pass over a document in which nothing would be extracted. -/
def revisit (config : Config) : Account config where
  Inv _ := True
  Later := Unmoved
  Fits := Rests
  Becomes _ policy role schema result := Hoists policy role schema result
  later_refl := Unmoved.refl
  later_trans := Unmoved.trans
  becomes_later _ visited := visited
  sameSchemas _ same := ⟨trivial, Unmoved.of_sameSchemas same⟩
  fits_child rests below := rests.child below
  reference _ _ role target := Visited.reference role target
  kept _ inline stays visited := Visited.kept inline stays visited
  shared _ rests moves := by simp [rests.not_extractedAt] at moves
  opened _ rests moves := by simp [rests.not_extractedAt] at moves
  closed _ rests moves := by simp [rests.not_extractedAt] at moves
  taken _ _ := trivial
  returned := by
    intro before after name schema result _ _ _ unmoved _
    refine ⟨trivial, ?_, fun visited => visited⟩
    have taken := (Unmoved.refl before).withComponent name .blank
    exact (taken.trans unmoved).withComponent name result
  fits_again _ visited := (visited.quiet (Policy.Within.refl _)).rests
  again := by
    intro state policy schema middle result _ first second
    rw [second.eq_of_quiet (first.quiet (Policy.Within.refl policy)) (first.still (Or.inl rfl))]
    exact first

/-! ## The result of a pass that moves nothing -/

/-- A document is what a pass that moves nothing makes of another one. -/
structure Revisits (config : Config) (document result : Document) : Prop where
  outside : document.Related (fun enums schema other =>
    Quiet (policyFor config enums) .slot schema ∧
      Hoists (policyFor config enums) .slot schema other) result
  components : Members.Related (fun _ => Hoists (policyFor config false) .component)
    document.components.schemas result.components.schemas

/-- A pass over a document in which everything rests moves nothing. -/
theorem exists_revisits_of_rests (config : Config) {document : Document}
    (names : Members.Distinct document.components.schemas)
    (outside : ∀ enums schema, document.Mentions enums schema →
      Rests (policyFor config enums) .slot schema)
    (components : ∀ name schema, (name, schema) ∈ document.components.schemas →
      Rests (policyFor config false) .component schema) :
    ∃ outcome, document.flatten config = .ok outcome ∧ outcome.report.registered = [] ∧
      outcome.report.reused = [] ∧ Revisits config document outcome.document := by
  obtain ⟨outcome, after, run, settles, report, _⟩ :=
    (revisit config).flatten trivial names (Document.related_self outside) components
  rcases settles with ⟨_, unmoved, roots, schemas, done, added, split, related⟩
  have none : added = [] := by
    have keys := unmoved.keys
    rw [split, Members.keys_append, related.keys_eq] at keys
    exact List.map_eq_nil_iff.mp (List.append_right_eq_self.mp keys)
  refine ⟨outcome, run, report ▸ unmoved.registered, report ▸ unmoved.reused,
    roots.mono fun _ _ _ done => ⟨done.2.quiet_of_free (Or.inl rfl), done.2⟩, ?_⟩
  rw [schemas, split, none, List.append_nil]
  exact related

/-- A pass over a document in which nothing would be extracted moves nothing. -/
theorem exists_revisits (config : Config) {document : Document}
    (names : Members.Distinct document.components.schemas)
    (outside : document.Related (fun enums schema other =>
      other = schema ∧ Quiet (policyFor config enums) .slot schema) document)
    (components : ∀ name schema, (name, schema) ∈ document.components.schemas →
      Quiet (policyFor config false) .component schema) :
    ∃ outcome, document.flatten config = .ok outcome ∧ outcome.report.registered = [] ∧
      outcome.report.reused = [] ∧ Revisits config document outcome.document := by
  refine exists_revisits_of_rests config names (fun enums schema inside => ?_)
    fun name schema present => (components name schema present).rests
  rcases outside.exists_mentioned inside with ⟨_, _, rfl, quiet⟩
  exact quiet.rests

/-! ## What a pass leaves -/

section Left

variable {config : Config} {known : String → Schema → Prop} {document result : Document}

/-- Nothing that a pass leaves outside the component schemas would be extracted. -/
theorem Flattens.quiet_outside (flattens : Flattens config known document result) :
    result.Related (fun enums schema other =>
      other = schema ∧ Quiet (policyFor config enums) .slot schema) result := by
  apply Document.related_self
  intro enums schema inside
  rcases flattens.outside.exists_mentioned inside with ⟨original, _, _, visited⟩
  exact visited.quiet (Policy.Within.refl _)

/-- Nothing that a pass leaves in the component schemas would be extracted, under a policy that is
no stronger. -/
theorem Flattens.quiet_components (flattens : Flattens config known document result)
    {weaker : Policy} (enums : weaker.inlineEnums = false)
    (parts : weaker.parts = true → config.options.refactorAllOf = true) {name : String}
    {content : Schema} (present : (name, content) ∈ result.components.schemas) :
    Quiet weaker .component content := by
  rcases flattens.origins name content present with ⟨shape, _, policy, same, visited⟩
  exact visited.quiet ⟨by simp [enums], fun allowed => same.trans (parts allowed)⟩

end Left

end SchemaLift.Flatten
