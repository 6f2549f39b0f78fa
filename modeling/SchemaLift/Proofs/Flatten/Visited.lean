import SchemaLift.Flatten.Pass
import SchemaLift.Proofs.Flatten.Extractable

/-!
# What becomes of a schema

`Visited` relates a schema to what a visit makes of it: it is a reference and left alone, it stays
and its children are visited after hoisting, or a reference to a known shape takes its place.

What a visit leaves is quiet: no schema in it would be extracted (`Visited.quiet`). At an ordinary
position it is also still: no discriminator value in it would be lifted (`Visited.still`). A visit
of what is quiet and still changes nothing (`Visited.eq_of_quiet`).
-/

namespace SchemaLift.Flatten

/-- What a visit makes of a schema. `known` tells which shapes have components, and their names. -/
inductive Visited (policy : Policy) (known : String → Schema → Prop) :
    Role → Schema → Schema → Prop
  | reference (role : Role) (target : Reference) :
      Visited policy known role (.reference target) (.reference target)
  | kept {role : Role} {schema : Schema} {below : Children} (inline : schema.isReference = false)
      (stays : schema.extractedAt policy role = false)
      (visited : Members.Related (fun edge => Visited policy known edge.role)
        schema.hoisted.children below) :
      Visited policy known role schema (schema.hoisted.withChildren below)
  | moved {role : Role} {schema shape : Schema} {name : String}
      (moves : schema.extractedAt policy role = true) (registered : known name shape)
      (same : shape.same schema = true) :
      Visited policy known role schema (replacement name schema)

/-- No schema here or below would be extracted. -/
inductive Quiet (policy : Policy) : Role → Schema → Prop
  | intro {role : Role} {schema : Schema} (stays : schema.extractedAt policy role = false)
      (below : ∀ edge child, (edge, child) ∈ schema.children → Quiet policy edge.role child) :
      Quiet policy role schema

/-- No discriminator value would be lifted here or below. -/
inductive Still : Schema → Prop
  | intro {schema : Schema} (own : schema.hoisted = schema)
      (below : ∀ edge child, (edge, child) ∈ schema.children → Still child) : Still schema

variable {policy : Policy} {known wider : String → Schema → Prop} {role : Role}
  {schema result : Schema}

theorem extractedAt_reference (policy : Policy) (role : Role) (target : Reference) :
    (Schema.reference target).extractedAt policy role = false := by
  cases role <;> simp [Schema.extractedAt, Schema.isAlternativeExtractable, Schema.isExtractable]

theorem quiet_reference (policy : Policy) (role : Role) (target : Reference) :
    Quiet policy role (.reference target) := by
  apply Quiet.intro (extractedAt_reference policy role target)
  intro edge child below
  simp [Schema.children] at below

theorem still_reference (target : Reference) : Still (.reference target) := by
  apply Still.intro rfl
  intro edge child below
  simp [Schema.children] at below

theorem Visited.mono (visited : Visited policy known role schema result)
    (widen : ∀ name shape, known name shape → wider name shape) :
    Visited policy wider role schema result := by
  induction schema using Schema.induction_hoisted generalizing role result with
  | step schema ih =>
      cases visited with
      | reference => exact Visited.reference role _
      | kept inline stays visited =>
          apply Visited.kept inline stays
          exact visited.mono fun edge child _ present fits => ih edge child present fits
      | moved moves registered same => exact Visited.moved moves (widen _ _ registered) same

/-! ## Children that were visited -/

theorem Visited.eq_reference {target : Reference}
    (visited : Visited policy known role (.reference target) result) :
    result = .reference target := by
  cases visited with
  | reference => rfl
  | kept inline => simp [Schema.isReference] at inline
  | moved moves => simp [extractedAt_reference] at moves

/-- References among children are left alone. -/
abbrev KeepsReferences : Edge → Schema → Schema → Prop :=
  fun _ child result => ∀ target, child = .reference target → result = child

/-- A schema that stays is still one that stays, under any weaker policy, when its children are
replaced and references among them are not. -/
theorem isExtractable_withChildren {weaker : Policy} (within : weaker.Within policy)
    {below : Children} (kept : Members.Related KeepsReferences schema.hoisted.children below)
    (extractable : (schema.hoisted.withChildren below).isExtractable weaker = true) :
    schema.isExtractable policy = true := by
  cases stays : schema.isExtractable policy with
  | true => rfl
  | false =>
      cases schema with
      | composed combination =>
          rw [Schema.hoisted_of_isExtractable stays] at kept extractable
          have same : below = (Schema.composed combination).children := by
            apply kept.eq
            intro edge child result present fits
            rcases Schema.eq_reference_of_isExtractable stays present with ⟨target, rfl⟩
            exact fits target rfl
          rw [same, Schema.withChildren_children] at extractable
          rw [← stays, Schema.isExtractable_within within extractable]
      | object shape =>
          rcases shape with ⟨properties, required, additional, discriminator, metadata⟩
          obtain rfl : properties = [] := by simpa [Schema.isExtractable] using stays
          have none : Children.properties below = [] := by
            cases additional with
            | values value =>
                cases kept with
                | cons _ rest =>
                    cases rest
                    rfl
            | unspecified =>
                cases kept
                rfl
            | allowed =>
                cases kept
                rfl
          simp [Schema.hoisted, Schema.withChildren, Schema.isExtractable, none] at extractable
      | primitive leaf =>
          have own : (Schema.primitive leaf).isExtractable weaker = true := extractable
          rw [← stays, Schema.isExtractable_within within own]
      | reference => simp [Schema.hoisted, Schema.withChildren, Schema.isExtractable] at extractable
      | array => simp [Schema.hoisted, Schema.withChildren, Schema.isExtractable] at extractable
      | map => simp [Schema.hoisted, Schema.withChildren, Schema.isExtractable] at extractable
      | boolean => simp [Schema.hoisted, Schema.withChildren, Schema.isExtractable] at extractable

theorem extractedAt_withChildren {weaker : Policy} (within : weaker.Within policy)
    {below : Children} (kept : Members.Related KeepsReferences schema.hoisted.children below)
    (stays : schema.extractedAt policy role = false) :
    (schema.hoisted.withChildren below).extractedAt weaker role = false := by
  rw [Bool.eq_false_iff]
  intro extracted
  refine absurd (Schema.extractedAt_of_imp within (isExtractable_withChildren within kept) ?_
    extracted) (by simp [stays])
  intro shape same
  cases schema with
  | object own => exact ⟨own, rfl⟩
  | _ => simp [Schema.hoisted, Schema.withChildren] at same

/-! ## What a visit leaves -/

/-- Nothing that a visit leaves would be extracted, under the same policy or a weaker one. -/
theorem Visited.quiet {weaker : Policy} (within : weaker.Within policy)
    (visited : Visited policy known role schema result) : Quiet weaker role result := by
  induction schema using Schema.induction_hoisted generalizing role result with
  | step schema ih =>
      cases visited with
      | reference => exact quiet_reference weaker role _
      | moved => exact quiet_reference weaker role _
      | kept inline stays visited =>
          refine Quiet.intro ?_ fun edge child below => ?_
          · apply extractedAt_withChildren within (visited.mono ?_) stays
            rintro _ _ _ _ fits target rfl
            exact fits.eq_reference
          · rw [Schema.children_withChildren visited.keys_eq] at below
            rcases visited.exists_left below with ⟨original, present, fits⟩
            exact ih edge original present fits

theorem distinctKeys_replacement (distinct : schema.DistinctKeys) (name : String) :
    (replacement name schema).DistinctKeys := by
  refine Schema.DistinctKeys.intro ?_ List.nodup_nil fun edge child below => ?_
  · change Json.DistinctMap schema.extensions
    rw [Schema.extensions]
    cases found : schema.metadata? with
    | none => exact ⟨List.nodup_nil, by simp⟩
    | some metadata => exact (distinct.metadata found).extensions
  · simp [replacement, Schema.children] at below

/-- A visit keeps keys distinct. -/
theorem Visited.distinctKeys (visited : Visited policy known role schema result)
    (distinct : schema.DistinctKeys) : result.DistinctKeys := by
  induction schema using Schema.induction_hoisted generalizing role result with
  | step schema ih =>
      cases visited with
      | reference => exact distinct
      | moved => exact distinctKeys_replacement distinct _
      | kept inline stays visited =>
          rcases distinct.hoisted with ⟨_, _, each⟩
          apply distinct.hoisted.withChildren visited.keys_eq
          intro edge child below
          rcases visited.exists_left below with ⟨original, present, fits⟩
          exact ih edge original present fits (each edge original present)

/-- Nothing would be lifted in what is quiet at an ordinary position or as an alternative. -/
theorem Quiet.still (free : role = .slot ∨ role = .alternative) (quiet : Quiet policy role schema) :
    Still schema := by
  induction schema using Schema.induction generalizing role with
  | step schema ih =>
      rcases quiet with ⟨stays, below⟩
      have inside := Schema.isExtractable_of_extractedAt free stays
      apply Still.intro (Schema.hoisted_of_isExtractable inside)
      intro edge child present
      rcases Schema.role_or_reference_of_isExtractable inside present with slot | ⟨target, rfl⟩
      · exact ih edge child present (Or.inl slot) (below edge child present)
      · exact still_reference target

/-- Nothing would be lifted in what a visit leaves at an ordinary position or as an alternative. -/
theorem Visited.still (free : role = .slot ∨ role = .alternative)
    (visited : Visited policy known role schema result) : Still result :=
  (visited.quiet (Policy.Within.refl policy)).still free

/-- A visit of what is quiet and still leaves it as it is. -/
theorem Visited.eq_of_quiet (visited : Visited policy known role schema result)
    (quiet : Quiet policy role schema) (still : Still schema) : result = schema := by
  induction schema using Schema.induction generalizing role result with
  | step schema ih =>
      rcases quiet with ⟨stays, quietBelow⟩
      rcases still with ⟨own, stillBelow⟩
      cases visited with
      | reference => rfl
      | moved moves => simp [stays] at moves
      | kept inline _ visited =>
          rw [own] at visited ⊢
          rw [visited.eq fun edge child result present fits =>
            ih edge child present fits (quietBelow edge child present)
              (stillBelow edge child present)]
          exact schema.withChildren_children

/-- What is quiet is quiet after hoisting. -/
theorem Quiet.bare (quiet : Quiet policy role schema) (lifted : Bool) :
    Quiet policy role (schema.bare lifted) := by
  rcases quiet with ⟨stays, below⟩
  refine Quiet.intro ?_ (by simpa using below)
  rw [Bool.eq_false_iff] at stays ⊢
  exact fun extracted => stays (Schema.extractedAt_bare extracted)

theorem Quiet.child (quiet : Quiet policy role schema) {edge : Edge} {child : Schema}
    (below : (edge, child) ∈ schema.hoisted.children) : Quiet policy edge.role child := by
  rcases quiet with ⟨_, each⟩
  rcases Schema.exists_bare_of_mem_children_hoisted below with ⟨original, lifted, present, rfl⟩
  exact (each edge original present).bare lifted

end SchemaLift.Flatten
