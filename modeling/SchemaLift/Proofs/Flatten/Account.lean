import SchemaLift.Proofs.Flatten.Ledger

/-!
# Accounts of a pass

An account is a ledger in which checks of references make no difference, and in which it does not
depend on the state which schemas may be visited (`Account.ledger`).
-/

namespace SchemaLift.Flatten

/-- An account of the passes with a configuration. -/
structure Account (config : Config) where
  /-- What holds of the state all along. -/
  Inv : State → Prop
  /-- How the state changes over time. -/
  Later : State → State → Prop
  /-- Which schemas may be visited. -/
  Fits : Policy → Role → Schema → Prop
  /-- What becomes of a schema, as far as it is known in a state. -/
  Becomes : State → Policy → Role → Schema → Schema → Prop
  later_refl (state : State) : Later state state
  later_trans {first second third : State} :
    Later first second → Later second third → Later first third
  becomes_later {before after : State} {policy : Policy} {role : Role} {schema result : Schema} :
    Later before after → Becomes before policy role schema result →
      Becomes after policy role schema result
  sameSchemas {before after : State} :
    Inv before → before.SameSchemas after → Inv after ∧ Later before after
  fits_child {policy : Policy} {role : Role} {schema child : Schema} {edge : Edge} :
    Fits policy role schema → (edge, child) ∈ schema.hoisted.children →
      Fits policy edge.role child
  /-- A reference is left alone. -/
  reference (state : State) (policy : Policy) (role : Role) (target : Reference) :
    Becomes state policy role (.reference target) (.reference target)
  /-- A schema stays where it is, and its children change. -/
  kept {state : State} {policy : Policy} {role : Role} {schema : Schema} {below : Children} :
    Fits policy role schema → schema.isReference = false →
      schema.extractedAt policy role = false →
      Members.Related (fun edge => Becomes state policy edge.role) schema.hoisted.children below →
      Becomes state policy role schema (schema.hoisted.withChildren below)
  /-- A shape that is known is shared. -/
  shared {before after : State} {policy : Policy} {role : Role} {schema : Schema}
      {derived name : String} :
    Inv before → Fits policy role schema → schema.extractedAt policy role = true →
      config.options.skipSchemaReuse = false →
      before.registry.reusable? (config.baseName schema derived).base schema = some name →
      before.Shares (config.baseName schema derived).base name schema after →
      Inv after ∧ Later before after ∧
        Becomes after policy role schema (replacement name schema)
  /-- A component is opened. -/
  opened {before middle : State} {policy : Policy} {role : Role} {schema : Schema}
      {derived name : String} :
    Inv before → Fits policy role schema → schema.extractedAt policy role = true →
      (config.options.skipSchemaReuse = false →
        before.registry.reusable? (config.baseName schema derived).base schema = none) →
      before.Opens (config.baseName schema derived).base name schema .blank middle →
      Inv middle
  /-- The component is closed when its inside has been visited. -/
  closed {before middle after : State} {policy : Policy} {role : Role} {schema : Schema}
      {derived name : String} {below : Children} :
    Inv before → Fits policy role schema → schema.extractedAt policy role = true →
      before.Opens (config.baseName schema derived).base name schema .blank middle →
      Inv after → Later middle after → middle.Grows after →
      Members.Related (fun edge => Becomes after policy edge.role) schema.hoisted.children below →
      Inv (after.withComponent name (schema.hoisted.withChildren below)) ∧
        Later before (after.withComponent name (schema.hoisted.withChildren below)) ∧
        Becomes (after.withComponent name (schema.hoisted.withChildren below)) policy role schema
          (replacement name schema)

  /-- A component schema is taken out to be visited. -/
  taken {before : State} {name : String} {schema : Schema} :
    Inv before → Members.get? name before.registry.initial = some schema →
      Inv (before.withComponent name .blank)
  /-- The component schema is put back when it has been visited. -/
  returned {before after : State} {name : String} {schema : Schema} (result : Schema) :
    Inv before → Members.get? name before.registry.initial = some schema → Inv after →
      Later (before.withComponent name .blank) after →
      (before.withComponent name .blank).Grows after →
      Inv (after.withComponent name result) ∧
        Later before (after.withComponent name result) ∧
        ∀ {policy : Policy} {role : Role} {schema final : Schema},
          Becomes after policy role schema final →
            Becomes (after.withComponent name result) policy role schema final
  /-- What a visit left at an ordinary position may be visited again. -/
  fits_again {state : State} {policy : Policy} {schema result : Schema} :
    Fits policy .slot schema → Becomes state policy .slot schema result →
      Fits policy .slot result
  /-- A visit of what a visit left at an ordinary position adds nothing to it. -/
  again {state : State} {policy : Policy} {schema middle result : Schema} :
    Fits policy .slot schema → Becomes state policy .slot schema middle →
      Becomes state policy .slot middle result → Becomes state policy .slot schema result

namespace Account

variable {config : Config} (account : Account config)

/-- The ledger of an account. -/
def ledger : Ledger config where
  Inv := account.Inv
  Later := account.Later
  Fits _ := account.Fits
  Becomes := account.Becomes
  Loses _ := True
  Lists _ _ := True
  later_refl := account.later_refl
  later_trans := account.later_trans
  fits_later _ fits := fits
  becomes_later := account.becomes_later
  lists_later _ _ := trivial
  sameWork inv same := account.sameSchemas inv same.sameSchemas
  fits_child := account.fits_child
  found _ _ _ := account.reference _ _ _ _
  missed := by
    intro before after policy role target inv _ _ reports
    rcases account.sameSchemas inv reports.sameSchemas with ⟨holds, later⟩
    exact ⟨holds, later, account.reference after policy role target⟩
  lost := by
    intro before after pointer inv _ reports
    rcases account.sameSchemas inv reports.sameSchemas with ⟨holds, later⟩
    exact ⟨holds, later, trivial⟩
  kept := account.kept
  shared := account.shared
  opened inv fits moves unknown opens := ⟨account.opened inv fits moves unknown opens, fits⟩
  closed := account.closed
  taken inv original := ⟨account.taken inv original, id⟩
  returned := account.returned
  fits_again := account.fits_again
  again := account.again

end Account

end SchemaLift.Flatten
