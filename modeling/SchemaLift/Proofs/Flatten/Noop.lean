import SchemaLift.Proofs.Flatten.Hoists

/-!
# Passes that report nothing

A pass whose report names no component, neither as registered nor as reused, has moved nothing. It
may still have lifted discriminator values, and only inside of component schemas: from any other
position a combination is extracted as soon as it has a part to lift a value from. So the document
is unchanged exactly when its component schemas are still (`flatten_unchanged_iff_of_isNoop`).
-/

namespace SchemaLift.Flatten

/-! ## The account -/

/-- The account of any pass, as far as it reports nothing. -/
def idling (config : Config) : Account config where
  Inv _ := True
  Later before after := after.report.isNoop = true → Unmoved before after
  Fits _ _ _ := True
  Becomes state policy role schema result :=
    state.report.isNoop = true → Hoists policy role schema result
  later_refl state _ := Unmoved.refl state
  later_trans := by
    intro first second third left right noop
    have unmoved := right noop
    exact (left (unmoved.isNoop noop)).trans unmoved
  becomes_later later becomes noop := becomes ((later noop).isNoop noop)
  sameSchemas _ same := ⟨trivial, fun _ => Unmoved.of_sameSchemas same⟩
  fits_child _ _ := trivial
  reference _ _ role target _ := Visited.reference role target
  kept _ inline stays related noop :=
    Visited.kept inline stays (related.mono fun _ _ _ _ becomes => becomes noop)
  shared := by
    intro before after policy role schema derived name _ _ _ _ _ shares
    have reports : ¬after.report.isNoop = true := by simp [Report.isNoop, shares.reused]
    exact ⟨trivial, fun noop => absurd noop reports, fun noop => absurd noop reports⟩
  opened _ _ _ _ _ := trivial
  closed := by
    intro before middle after policy role schema derived name below _ _ _ opens _ later _ _
    have reports : ¬after.report.isNoop = true := by
      intro noop
      have idle := (later noop).isNoop noop
      simp [Report.isNoop, opens.registered] at idle
    exact ⟨trivial, fun noop => absurd noop reports, fun noop => absurd noop reports⟩
  taken _ _ := trivial
  returned := by
    intro before after name schema result _ _ _ later _
    refine ⟨trivial, fun noop => ?_, fun becomes => becomes⟩
    have taken := (Unmoved.refl before).withComponent name .blank
    exact (taken.trans (later noop)).withComponent name result
  fits_again _ _ := trivial
  again := by
    intro state policy schema middle result _ first second noop
    rw [(second noop).eq_of_free (Or.inl rfl)]
    exact first noop

/-! ## The result of a pass that reports nothing -/

/-- If a pass over a document, with any configuration, reports nothing, then all that can differ
afterwards are the contents of the component schemas, and the document is unchanged exactly when no
discriminator value was to be lifted in them. -/
theorem flatten_unchanged_iff_of_isNoop (config : Config) {document : Document}
    (distinct : document.DistinctKeys) :
    ∃ outcome, document.flatten config = .ok outcome ∧
      (outcome.report.isNoop = true →
        outcome.document =
          { document with components :=
            { document.components with schemas := outcome.document.components.schemas } } ∧
        Members.keys outcome.document.components.schemas =
          Members.keys document.components.schemas ∧
        ((document == outcome.document) = true ↔
          ∀ name content, (name, content) ∈ document.components.schemas → Still content)) := by
  have own : document.Related (Keeps fun _ _ => True) document :=
    Document.related_self fun _ _ _ => trivial
  obtain ⟨outcome, after, run, settles, report, _⟩ := (idling config).flatten trivial distinct.names
    (own.mono fun _ _ _ fits => fits) fun _ _ _ => trivial
  refine ⟨outcome, run, fun noop => ?_⟩
  rw [report] at noop
  rcases settles with ⟨_, later, outside, schemas, done, added, split, related⟩
  have components : Members.Related (fun _ => Hoists (policyFor config false) .component)
      document.components.schemas outcome.document.components.schemas := by
    have keys := (later noop).keys
    rw [split, Members.keys_append, related.keys_eq] at keys
    have none : added = [] := List.map_eq_nil_iff.mp (List.append_right_eq_self.mp keys)
    rw [schemas, split, none, List.append_nil]
    exact related.mono fun _ _ _ _ becomes => becomes noop
  have whole : outcome.document =
      { document with components :=
        { document.components with schemas := outcome.document.components.schemas } } :=
    outside.eq fun _ _ _ becomes => (becomes.2 noop).eq_of_free (Or.inl rfl)
  refine ⟨whole, components.keys_eq, ?_⟩
  rw [whole, Document.same_withSchemas distinct]
  exact sameMap_iff_still components distinct.names distinct.components

/-- An inline part with a discriminator value, in a component schema. -/
def dog : Document :=
  .ofSchemas
    [("Dog", .composed
      ⟨[.object ⟨[], [], .unspecified, none,
        { declaredType := some (.single "object")
          extensions := [("x-discriminator-value", .string "dog")] }⟩],
        [], [], [], [], none, {}⟩)]

/-- The value is lifted from the part, and the report does not tell. -/
theorem flatten_dog :
    (do
      let outcome ← dog.flatten {}
      pure (outcome.report.isNoop, dog == outcome.document)) = .ok (true, false) := by
  decide +kernel

/-- The pass over the dog reports nothing, and leaves all but the component schemas as it is. -/
theorem dog_unchanged_iff_of_isNoop :
    dog.DistinctKeys ∧
      ∃ outcome, dog.flatten {} = .ok outcome ∧ outcome.report.isNoop = true ∧
        outcome.document =
          { dog with components :=
            { dog.components with schemas := outcome.document.components.schemas } } ∧
        Members.keys outcome.document.components.schemas = Members.keys dog.components.schemas ∧
        ((dog == outcome.document) = true ↔
          ∀ name content, (name, content) ∈ dog.components.schemas → Still content) := by
  have distinct : dog.DistinctKeys := by
    apply Document.distinctKeys_ofSchemas (by decide)
    intro name schema present
    cases List.mem_singleton.mp present
    apply Schema.distinctKeys_composed ⟨by simp, Metadata.distinctKeys_default⟩ (by decide)
      (by simp) _ (by simp) (by simp)
    intro part inside
    cases List.mem_singleton.mp inside
    have value : Json.DistinctMap [("x-discriminator-value", .string "dog")] := by
      refine ⟨by decide, fun key value there => ?_⟩
      cases List.mem_singleton.mp there
      exact Json.distinctKeys_of_parts_eq_nil rfl
    exact Schema.distinctKeys_object
      ⟨by simp, Metadata.distinctKeys_of_extensions rfl rfl value rfl⟩ (by decide) (by simp)
      (by simp)
  obtain ⟨outcome, run, unchanged⟩ := flatten_unchanged_iff_of_isNoop {} distinct
  have noop : outcome.report.isNoop = true := by
    have found : (dog.flatten {}).map (·.report.isNoop) = .ok true := by decide +kernel
    rw [run] at found
    exact Except.ok.inj found
  exact ⟨distinct, outcome, run, noop, unchanged noop⟩

end SchemaLift.Flatten
