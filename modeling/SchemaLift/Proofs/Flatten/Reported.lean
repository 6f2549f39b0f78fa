import SchemaLift.Proofs.Document.Mentions
import SchemaLift.Proofs.Flatten.Runs

/-!
# What the report says of extractions

A name is reported as registered when a component is generated, and as reused when one is shared, so
that the report has as many names as there are extractions (`yields_telling`).
-/

namespace SchemaLift.Flatten

/-- What the report says of the extractions. -/
structure Tells (config : Config) (state : State) : Prop where
  registered : state.report.registered = state.registry.generated.map Extraction.name
  count : state.report.registered.length + state.report.reused.length = state.extractions.length
  all : config.options.skipSchemaReuse = true → state.registry.generated = state.extractions

namespace Tells

variable {config : Config} {before after : State} {base name : String} {shape content : Schema}

theorem sameSchemas (tells : Tells config before) (same : before.SameSchemas after) :
    Tells config after := by
  rcases tells with ⟨registered, count, all⟩
  constructor <;> simpa only [same.registry, same.registered, same.reused, same.extractions]

theorem withComponent (tells : Tells config before) (name : String) (content : Schema) :
    Tells config (before.withComponent name content) :=
  ⟨tells.registered, tells.count, tells.all⟩

theorem shares (tells : Tells config before) (reuse : config.options.skipSchemaReuse = false)
    (shares : before.Shares base name shape after) : Tells config after := by
  rcases tells with ⟨registered, count, _⟩
  refine ⟨by rw [shares.registered, shares.registry, registered], ?_, by simp [reuse]⟩
  rw [shares.registered, shares.reused, shares.extractions, List.length_append,
    List.length_append, ← count, Nat.add_assoc]
  rfl

theorem opens (tells : Tells config before) (opens : before.Opens base name shape content after) :
    Tells config after := by
  rcases tells with ⟨registered, count, all⟩
  refine ⟨by rw [opens.registered, opens.generated, registered]; simp, ?_, fun each => ?_⟩
  · rw [opens.registered, opens.reused, opens.extractions, List.length_append,
      List.length_append, ← count, Nat.add_right_comm]
    rfl
  · rw [opens.generated, opens.extractions, all each]

end Tells

/-- The account of the report. -/
def telling (config : Config) : Account config where
  Inv := Tells config
  Later _ _ := True
  Fits _ _ _ := True
  Becomes _ _ _ _ _ := True
  later_refl _ := trivial
  later_trans _ _ := trivial
  becomes_later _ := id
  sameSchemas tells same := ⟨tells.sameSchemas same, trivial⟩
  fits_child _ _ := trivial
  reference _ _ _ _ := trivial
  kept _ _ _ _ := trivial
  shared tells _ _ reuse _ shares := ⟨tells.shares reuse shares, trivial, trivial⟩
  opened tells _ _ _ opens := tells.opens opens
  closed _ _ _ _ ends _ _ _ := ⟨ends.withComponent _ _, trivial, trivial⟩
  taken tells _ := tells.withComponent _ _
  returned _ _ _ ends _ _ := ⟨ends.withComponent _ _, trivial, id⟩
  fits_again _ _ := trivial
  again _ _ _ := trivial

theorem yields_telling (config : Config) {document : Document}
    (distinct : Members.Distinct document.components.schemas) :
    Yields (visitDocument config document) (start config document) fun _ after =>
      Tells config after := by
  have own : document.Related (Keeps fun _ _ => True) document :=
    Document.related_self fun _ _ _ => trivial
  have tells : Tells config (start config document) := ⟨rfl, rfl, fun _ => rfl⟩
  exact ((telling config).visitDocument tells distinct own fun _ _ _ => trivial).mono
    fun _ _ settles => settles.inv

end SchemaLift.Flatten
