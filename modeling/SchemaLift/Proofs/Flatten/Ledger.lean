import SchemaLift.Proofs.Flatten.Steps
import SchemaLift.Proofs.Flatten.Visits

/-!
# Ledgers of a pass

A ledger says what holds of the state all along a pass, how a later state is related to an earlier
one, which schemas may be visited, and what becomes of a schema that is visited. Its laws speak of
single steps: a reference is found or reported, a schema stays and its children change, a shape is
shared, a component is opened and closed again. From them it follows what a whole visit does,
however deep the schema is (`Ledger.visitSchema`).
-/

namespace SchemaLift.Flatten

/-! ## Courses -/

/-- Valid states, and how one leads to a later one. -/
structure Course where
  Valid : State → Prop
  Goes : State → State → Prop
  refl {state : State} : Valid state → Goes state state
  trans {first second third : State} : Goes first second → Goes second third → Goes first third
  valid {before after : State} : Goes before after → Valid after

/-- What the visit of each value does, the visit of all values does. The values may have changed
since the beginning; `pending` relates them to what they were. -/
theorem Course.visitValues (course : Course) {κ α : Type} {visit : κ → α → Step α}
    {originals members : List (κ × α)} {before : State}
    (pending done : State → κ → α → α → Prop)
    (pending_later : ∀ {before after key value current}, course.Goes before after →
      pending before key value current → pending after key value current)
    (done_later : ∀ {before after key value result}, course.Goes before after →
      done before key value result → done after key value result)
    (each : ∀ key value current before, (key, value) ∈ originals → course.Valid before →
      pending before key value current →
      Yields (visit key current) before fun result after =>
        course.Goes before after ∧ done after key value result)
    (valid : course.Valid before) (all : Members.Related (pending before) originals members) :
    Yields (Flatten.visitValues visit members) before fun results after =>
      course.Goes before after ∧ Members.Related (done after) originals results := by
  induction originals generalizing members before with
  | nil =>
      cases all
      exact yields_pure ⟨course.refl valid, Members.Related.nil⟩
  | cons entry rest ih =>
      cases all with
      | cons fits later =>
          apply yields_bind (each _ _ _ before List.mem_cons_self valid fits)
          rintro result middle ⟨first, ends⟩
          refine yields_bind (ih (fun key value current before present =>
            each key value current before (List.mem_cons_of_mem _ present)) (course.valid first)
            (later.mono fun _ _ _ _ => pending_later first)) ?_
          rintro results after ⟨second, related⟩
          exact yields_pure ⟨course.trans first second,
            Members.Related.cons (done_later second ends) related⟩

/-! ## Ledgers -/

/-- A ledger of the passes with a configuration. -/
structure Ledger (config : Config) where
  /-- What holds of the state all along. -/
  Inv : State → Prop
  /-- How the state changes over time. -/
  Later : State → State → Prop
  /-- Which schemas may be visited, as far as it is known in a state. -/
  Fits : State → Policy → Role → Schema → Prop
  /-- What becomes of a schema, as far as it is known in a state. -/
  Becomes : State → Policy → Role → Schema → Schema → Prop
  /-- The pointers outside schemas that may be found to lead nowhere. -/
  Loses : String → Prop
  /-- The pointers outside schemas that have been found to lead nowhere. -/
  Lists : State → String → Prop
  later_refl (state : State) : Later state state
  later_trans {first second third : State} :
    Later first second → Later second third → Later first third
  fits_later {before after : State} {policy : Policy} {role : Role} {schema : Schema} :
    Later before after → Fits before policy role schema → Fits after policy role schema
  becomes_later {before after : State} {policy : Policy} {role : Role} {schema result : Schema} :
    Later before after → Becomes before policy role schema result →
      Becomes after policy role schema result
  lists_later {before after : State} {pointer : String} :
    Later before after → Lists before pointer → Lists after pointer
  sameWork {before after : State} :
    Inv before → before.SameWork after → Inv after ∧ Later before after
  fits_child {state : State} {policy : Policy} {role : Role} {schema child : Schema}
      {edge : Edge} :
    Fits state policy role schema → (edge, child) ∈ schema.hoisted.children →
      Fits state policy edge.role child
  /-- A reference that leads to a component schema is left alone. -/
  found {state : State} {policy : Policy} {role : Role} {target : Reference} :
    Inv state → Fits state policy role (.reference target) →
      Pointer.Found Pointer.schemas (Members.keys state.registry.schemas) target.pointer →
      Becomes state policy role (.reference target) (.reference target)
  /-- A reference to a component schema that is not there is reported. -/
  missed {before after : State} {policy : Policy} {role : Role} {target : Reference} :
    Inv before → Fits before policy role (.reference target) →
      ¬Pointer.Found Pointer.schemas (Members.keys before.registry.schemas) target.pointer →
      before.Reports target.pointer after →
      Inv after ∧ Later before after ∧
        Becomes after policy role (.reference target) (.reference target)
  /-- A reference outside schemas that leads nowhere is reported. -/
  lost {before after : State} {pointer : String} :
    Inv before → Loses pointer → before.Reports pointer after →
      Inv after ∧ Later before after ∧ Lists after pointer
  /-- A schema stays where it is, and its children change. -/
  kept {state : State} {policy : Policy} {role : Role} {schema : Schema} {below : Children} :
    Fits state policy role schema → schema.isReference = false →
      schema.extractedAt policy role = false →
      Members.Related (fun edge => Becomes state policy edge.role) schema.hoisted.children below →
      Becomes state policy role schema (schema.hoisted.withChildren below)
  /-- A shape that is known is shared. -/
  shared {before after : State} {policy : Policy} {role : Role} {schema : Schema}
      {derived name : String} :
    Inv before → Fits before policy role schema → schema.extractedAt policy role = true →
      config.options.skipSchemaReuse = false →
      before.registry.reusable? (config.baseName schema derived).base schema = some name →
      before.Shares (config.baseName schema derived).base name schema after →
      Inv after ∧ Later before after ∧
        Becomes after policy role schema (replacement name schema)
  /-- A component is opened. -/
  opened {before middle : State} {policy : Policy} {role : Role} {schema : Schema}
      {derived name : String} :
    Inv before → Fits before policy role schema → schema.extractedAt policy role = true →
      (config.options.skipSchemaReuse = false →
        before.registry.reusable? (config.baseName schema derived).base schema = none) →
      before.Opens (config.baseName schema derived).base name schema .blank middle →
      Inv middle ∧ Fits middle policy role schema
  /-- The component is closed when its inside has been visited. -/
  closed {before middle after : State} {policy : Policy} {role : Role} {schema : Schema}
      {derived name : String} {below : Children} :
    Inv before → Fits before policy role schema → schema.extractedAt policy role = true →
      before.Opens (config.baseName schema derived).base name schema .blank middle →
      Inv after → Later middle after → middle.Grows after →
      Members.Related (fun edge => Becomes after policy edge.role) schema.hoisted.children below →
      Inv (after.withComponent name (schema.hoisted.withChildren below)) ∧
        Later before (after.withComponent name (schema.hoisted.withChildren below)) ∧
        Becomes (after.withComponent name (schema.hoisted.withChildren below)) policy role schema
          (replacement name schema)
  /-- A component schema is taken out to be visited. -/
  taken {before : State} {name : String} {schema : Schema} :
    Inv before → Members.get? name before.registry.initial = some schema →
      Inv (before.withComponent name .blank) ∧
        ∀ {policy : Policy} {role : Role} {other : Schema},
          Fits before policy role other → Fits (before.withComponent name .blank) policy role other
  /-- The component schema is put back when it has been visited. -/
  returned {before after : State} {name : String} {schema : Schema} (result : Schema) :
    Inv before → Members.get? name before.registry.initial = some schema → Inv after →
      Later (before.withComponent name .blank) after →
      (before.withComponent name .blank).Grows after →
      Inv (after.withComponent name result) ∧
        Later before (after.withComponent name result) ∧
        ∀ {policy : Policy} {role : Role} {schema final : Schema},
          Becomes after policy role schema final →
            Becomes (after.withComponent name result) policy role schema final
  /-- What a visit left at an ordinary position may be visited again. -/
  fits_again {state : State} {policy : Policy} {schema result : Schema} :
    Fits state policy .slot schema → Becomes state policy .slot schema result →
      Fits state policy .slot result
  /-- A visit of what a visit left at an ordinary position adds nothing to it. -/
  again {state : State} {policy : Policy} {schema middle result : Schema} :
    Fits state policy .slot schema → Becomes state policy .slot schema middle →
      Becomes state policy .slot middle result → Becomes state policy .slot schema result

namespace Ledger

variable {config : Config} (ledger : Ledger config)

/-- The state is a later one, and nothing has been done to request bodies and responses. -/
structure Advances (before after : State) : Prop extends before.SameBodies after where
  inv : ledger.Inv after
  later : ledger.Later before after
  grows : before.Grows after

variable {ledger}

theorem Advances.refl {state : State} (inv : ledger.Inv state) : ledger.Advances state state :=
  ⟨State.SameBodies.refl state, inv, ledger.later_refl state, State.Grows.refl state⟩

theorem Advances.trans {first second third : State} (left : ledger.Advances first second)
    (right : ledger.Advances second third) : ledger.Advances first third :=
  ⟨left.toSameBodies.trans right.toSameBodies, right.inv,
    ledger.later_trans left.later right.later, left.grows.trans right.grows⟩

variable (ledger)

/-- The course of a visit of a schema. -/
def within : Course where
  Valid := ledger.Inv
  Goes := ledger.Advances
  refl := Advances.refl
  trans := Advances.trans
  valid := Advances.inv

/-- A reference in a schema is left alone, and reported if it leads nowhere. -/
theorem checkSchema {policy : Policy} {role : Role} {target : Reference} {before : State}
    (inv : ledger.Inv before) (fits : ledger.Fits before policy role (.reference target)) :
    Yields (Flatten.checkSchema target) before fun _ after =>
      ledger.Advances before after ∧
        ledger.Becomes after policy role (.reference target) (.reference target) := by
  apply (yields_checkSchema target before).mono
  rintro _ after (⟨found, rfl⟩ | ⟨missed, reports⟩)
  · exact ⟨Advances.refl inv, ledger.found inv fits found⟩
  · obtain ⟨holds, later, becomes⟩ := ledger.missed inv fits missed reports
    exact ⟨⟨reports.toSameBodies, holds, later, State.Grows.of_registry reports.registry⟩,
      becomes⟩

/-- A visit runs to its end, and what it does is as the ledger says. -/
theorem visitSchema (policy : Policy) (role : Role) (derived : String) {schema : Schema}
    {before : State} (inv : ledger.Inv before) (fits : ledger.Fits before policy role schema) :
    Yields (Flatten.visitSchema config policy role false derived schema) before
      fun result after =>
        ledger.Advances before after ∧ ledger.Becomes after policy role schema result := by
  induction schema using Schema.induction_hoisted generalizing role derived before with
  | step schema ih =>
      cases inline : schema.isReference with
      | true =>
          obtain ⟨target, rfl⟩ := Schema.exists_eq_reference inline
          apply yields_bind (ledger.checkSchema inv fits)
          rintro _ after ⟨advances, becomes⟩
          exact yields_pure ⟨advances, becomes⟩
      | false =>
          have below : ∀ parent before, ledger.Inv before →
              ledger.Fits before policy role schema →
              Yields (Flatten.visitChildren config policy parent schema.hoisted.children) before
                fun below after => ledger.Advances before after ∧
                  Members.Related (fun edge => ledger.Becomes after policy edge.role)
                    schema.hoisted.children below := by
            intro parent before inv fits
            refine ledger.within.visitValues
              (fun state edge value current =>
                current = value ∧ ledger.Fits state policy (Edge.role edge) value)
              (fun after edge => ledger.Becomes after policy (Edge.role edge))
              (fun advances pending => ⟨pending.1, ledger.fits_later advances.later pending.2⟩)
              (fun advances => ledger.becomes_later advances.later) ?_ inv
              (Members.Related.refl fun _ _ present => ⟨rfl, ledger.fits_child fits present⟩)
            rintro edge child _ before present inv ⟨rfl, fits⟩
            exact ih edge _ present edge.role _ inv fits
          rw [visitSchema_eq config policy role derived inline]
          refine yields_place (fun stays => ?_) fun moves => ?_
          · apply yields_bind (below derived before inv fits)
            rintro children after ⟨advances, related⟩
            have fitsAfter := ledger.fits_later advances.later fits
            exact yields_pure ⟨advances, ledger.kept fitsAfter inline stays related⟩
          refine yields_extract (fun name after reuse found shares => ?_)
            fun name middle unknown opens => ?_
          · obtain ⟨holds, later, becomes⟩ :=
              ledger.shared inv fits moves reuse found shares
            exact ⟨⟨shares.toSameBodies, holds, later, State.Grows.of_registry shares.registry⟩,
              becomes⟩
          · rcases ledger.opened inv fits moves unknown opens with ⟨opened, fitsOpened⟩
            apply yields_bind (below name middle opened fitsOpened)
            rintro children after ⟨advances, related⟩
            obtain ⟨holds, later, becomes⟩ :=
              ledger.closed inv fits moves opens advances.inv advances.later advances.grows related
            have bodies := opens.toSameBodies.trans advances.toSameBodies
            exact yields_pure ⟨⟨⟨bodies.requestBodies, bodies.responses⟩, holds, later,
              opens.grows_withComponent advances.grows _⟩, becomes⟩

end Ledger

end SchemaLift.Flatten
