import SchemaLift.Proofs.Flatten.Pointers

/-!
# The pointers that a pass reports

The pointers that a pass reports as unresolved are those that lead nowhere, each of them once
(`flatten_unresolved`). For references outside schemas this is a matter of the document alone. A
reference in a schema is looked up when it is visited, among the components that are there by then.
So a pointer that leads nowhere in the end has been reported; but one that is reported may lead to a
component that was registered after it.

What is visited once may be visited again, and what stands in a registered component came from
somewhere in the document. The ledger therefore keeps, of every schema that it has seen through,
only its pointers: each of them leads to a component, or has been reported (`Settled`).
-/

namespace SchemaLift

/-- The pointer of a reference in the schemas of a document, to a component schema that is not
there. -/
def Document.Misses (pointer : String) (document : Document) : Prop :=
  Schema.Shown pointer document.sightings ∧
    ¬Pointer.Found Pointer.schemas (Members.keys document.components.schemas) pointer

theorem Pointer.found_toSchema {name : String} {names : List String} :
    Pointer.Found Pointer.schemas names (Pointer.toSchema name) ↔ name ∈ names :=
  Pointer.found_iff (Text.dropLead?_append Pointer.schemas name)

theorem Pointer.Found.mono {lead pointer : String} {names others : List String}
    (found : Pointer.Found lead names pointer) (within : names ⊆ others) :
    Pointer.Found lead others pointer :=
  fun name cut => within (found name cut)

namespace Report

variable {report : Report} {pointer other : String}

theorem mem_noteUnresolved_iff :
    other ∈ (report.noteUnresolved pointer).unresolved ↔
      other ∈ report.unresolved ∨ other = pointer := by
  unfold noteUnresolved
  split
  · next listed =>
      constructor
      · exact Or.inl
      · rintro (old | rfl)
        · exact old
        · simpa using listed
  · simp

theorem nodup_noteUnresolved (nodup : report.unresolved.Nodup) :
    (report.noteUnresolved pointer).unresolved.Nodup := by
  unfold noteUnresolved
  split
  · exact nodup
  · next unlisted =>
      refine List.nodup_append.mpr ⟨nodup, List.nodup_singleton pointer, ?_⟩
      rintro old present _ single rfl
      cases List.mem_singleton.mp single
      simp [present] at unlisted

end Report

namespace Flatten

variable {config : Config} {document : Document}

/-! ## Pointers in a state -/

/-- The pointer leads to a component schema, as far as there are component schemas by then. -/
def State.Leads (state : State) : String → Prop :=
  Pointer.Found Pointer.schemas (Members.keys state.registry.schemas)

/-- The pointer may turn up in a schema: it is one of the document's, or leads to a component. -/
def State.Admits (document : Document) (state : State) (pointer : String) : Prop :=
  Schema.Shown pointer document.sightings ∨ state.Leads pointer

/-- Each pointer of the schema may turn up there, and leads to a component or has been reported. -/
def State.Settled (document : Document) (state : State) (schema : Schema) : Prop :=
  ∀ pointer, schema.RefersTo pointer →
    state.Admits document pointer ∧ (state.Leads pointer ∨ pointer ∈ state.report.unresolved)

/-- Nothing has been taken from the component schemas or from the report. -/
structure State.Extends (before after : State) : Prop where
  names : Members.keys before.registry.schemas ⊆ Members.keys after.registry.schemas
  unresolved : before.report.unresolved ⊆ after.report.unresolved

/-- What has been reported leads nowhere, and registered components are settled. -/
structure Reported (document : Document) (state : State) : Prop where
  named : Named state.registry
  initial : state.registry.initial = document.components.schemas
  nodup : state.report.unresolved.Nodup
  sound : ∀ pointer ∈ state.report.unresolved, document.Misses pointer ∨ document.Loses pointer
  contents : ∀ name content, (name, content) ∈ state.registry.schemas →
    name ∈ state.registry.generated.map Extraction.name → state.Settled document content

namespace State.Extends

variable {before middle after : State} {pointer name : String} {schema : Schema}

theorem refl (state : State) : state.Extends state :=
  ⟨List.Subset.refl _, List.Subset.refl _⟩

theorem trans (left : before.Extends middle) (right : middle.Extends after) :
    before.Extends after :=
  ⟨List.Subset.trans left.names right.names, List.Subset.trans left.unresolved right.unresolved⟩

theorem leads (later : before.Extends after) (leads : before.Leads pointer) :
    after.Leads pointer :=
  leads.mono later.names

theorem admits (later : before.Extends after) (admits : before.Admits document pointer) :
    after.Admits document pointer :=
  admits.imp_right later.leads

theorem settled (later : before.Extends after) (settled : before.Settled document schema) :
    after.Settled document schema := by
  intro pointer refers
  rcases settled pointer refers with ⟨admits, ends⟩
  exact ⟨later.admits admits, ends.imp later.leads fun listed => later.unresolved listed⟩

theorem withComponent (state : State) (name : String) (content : Schema) :
    state.Extends (state.withComponent name content) :=
  ⟨by rw [keys_withComponent]; exact List.Subset.refl _, List.Subset.refl _⟩

theorem sameWork (same : before.SameWork after) : before.Extends after :=
  ⟨by rw [same.registry]; exact List.Subset.refl _, by rw [same.report]; exact List.Subset.refl _⟩

theorem reports (reports : before.Reports pointer after) : before.Extends after := by
  constructor
  · rw [reports.registry]
    exact List.Subset.refl _
  · rw [reports.report]
    exact fun _ listed => Report.mem_noteUnresolved_iff.mpr (Or.inl listed)

theorem shares {base : String} (shares : before.Shares base name schema after) :
    before.Extends after :=
  ⟨by rw [shares.registry]; exact List.Subset.refl _,
    by rw [shares.unresolved]; exact List.Subset.refl _⟩

theorem opens {base : String} {content : Schema}
    (opens : before.Opens base name schema content after) : before.Extends after := by
  constructor
  · rw [opens.schemas, Members.keys_append]
    exact List.subset_append_left _ _
  · rw [opens.unresolved]
    exact List.Subset.refl _

end State.Extends

theorem State.Reports.mem_unresolved {before after : State} {pointer : String}
    (reports : before.Reports pointer after) : pointer ∈ after.report.unresolved := by
  rw [reports.report]
  exact before.report.mem_unresolved_noteUnresolved pointer

/-! ## Settled schemas -/

section Settled

variable {state : State} {schema : Schema} {name : String}

theorem State.Settled.admits (settled : state.Settled document schema) (pointer : String)
    (refers : schema.RefersTo pointer) : state.Admits document pointer :=
  (settled pointer refers).1

/-- A reference is settled when its pointer is. -/
theorem settled_reference {target : Reference} (admits : state.Admits document target.pointer)
    (ends : state.Leads target.pointer ∨ target.pointer ∈ state.report.unresolved) :
    state.Settled document (.reference target) := by
  intro pointer refers
  cases refers with
  | here own => exact own ▸ ⟨admits, ends⟩
  | child present => simp [Schema.children] at present

theorem settled_replacement (there : name ∈ Members.keys state.registry.schemas)
    (schema : Schema) : state.Settled document (replacement name schema) := by
  have leads : state.Leads (Pointer.toSchema name) := Pointer.found_toSchema.mpr there
  exact settled_reference (Or.inr leads) (Or.inl leads)

/-- A schema is settled when its children are. -/
theorem settled_withChildren {related : Edge → Schema → Schema → Prop} {below : Children}
    (inline : schema.isReference = false)
    (settled : ∀ edge child result, related edge child result → state.Settled document result)
    (all : Members.Related related schema.hoisted.children below) :
    state.Settled document (schema.hoisted.withChildren below) := by
  intro pointer refers
  rcases exists_refersTo_of_withChildren inline all.keys_eq refers with
    ⟨edge, result, present, inside⟩
  rcases all.exists_left present with ⟨child, _, fits⟩
  exact settled edge child result fits pointer inside

theorem settled_blank : state.Settled document .blank :=
  fun _ refers => absurd refers Schema.not_refersTo_blank

end Settled

/-! ## The invariant -/

namespace Reported

variable {before after : State} {pointer name base : String} {schema content : Schema}

theorem start (config : Config) (distinct : Members.Distinct document.components.schemas) :
    Reported document (Flatten.start config document) := by
  constructor
  · exact ⟨distinct, by simp [Flatten.start, Registry.ofSchemas]⟩
  · rfl
  all_goals simp [Flatten.start, Registry.ofSchemas]

/-- What has been reported stays so as long as components are settled. -/
theorem of_registry (reported : Reported document before) (later : before.Extends after)
    (registry : after.registry = before.registry) (nodup : after.report.unresolved.Nodup)
    (sound : ∀ pointer ∈ after.report.unresolved,
      document.Misses pointer ∨ document.Loses pointer) : Reported document after := by
  refine ⟨by rw [registry]; exact reported.named, by rw [registry]; exact reported.initial, nodup,
    sound, ?_⟩
  rw [registry]
  exact fun name content present registered =>
    later.settled (reported.contents name content present registered)

theorem sameWork (reported : Reported document before) (same : before.SameWork after) :
    Reported document after :=
  reported.of_registry (State.Extends.sameWork same) same.registry
    (by rw [same.report]; exact reported.nodup) (by rw [same.report]; exact reported.sound)

/-- A pointer that leads nowhere may be reported. -/
theorem reports (reported : Reported document before) (reports : before.Reports pointer after)
    (lost : document.Misses pointer ∨ document.Loses pointer) : Reported document after := by
  refine reported.of_registry (State.Extends.reports reports) reports.registry ?_ ?_
  · rw [reports.report]
    exact Report.nodup_noteUnresolved reported.nodup
  · rw [reports.report]
    intro other listed
    rcases Report.mem_noteUnresolved_iff.mp listed with old | rfl
    · exact reported.sound other old
    · exact lost

theorem shares (reported : Reported document before)
    (shares : before.Shares base name schema after) : Reported document after :=
  reported.of_registry (State.Extends.shares shares) shares.registry
    (by rw [shares.unresolved]; exact reported.nodup)
    (by rw [shares.unresolved]; exact reported.sound)

/-- A component may be given a settled schema; one of the document may be given any. -/
theorem withComponent (reported : Reported document before)
    (settled : name ∈ before.registry.generated.map Extraction.name →
      before.Settled document content) : Reported document (before.withComponent name content) := by
  have later := State.Extends.withComponent before name content
  rcases reported with ⟨named, initial, nodup, sound, contents⟩
  refine ⟨named.withComponent name content, initial, nodup, sound, fun other value present
    registered => later.settled ?_⟩
  rcases Members.mem_of_mem_update present with old | ⟨rfl, rfl⟩
  · exact contents other value old registered
  · exact settled registered

theorem opens (reported : Reported document before)
    (opens : before.Opens base name schema .blank after) : Reported document after := by
  have later := State.Extends.opens opens
  rcases reported with ⟨named, initial, nodup, sound, contents⟩
  refine ⟨named.opens opens, opens.initial.trans initial, by rwa [opens.unresolved],
    by rwa [opens.unresolved], fun other value present registered => ?_⟩
  rcases opens.registered_or present registered with ⟨old, early⟩ | ⟨rfl, rfl⟩
  · exact later.settled (contents other value old early)
  · exact settled_blank

/-- A reference of the document that leads nowhere in a state led nowhere in the beginning. -/
theorem misses (reported : Reported document before) (admits : before.Admits document pointer)
    (lost : ¬before.Leads pointer) : document.Misses pointer := by
  refine ⟨admits.resolve_right lost, fun found => lost (found.mono ?_)⟩
  rw [reported.named.keys, reported.initial]
  exact List.subset_append_left _ _

end Reported

/-! ## The ledger -/

/-- The ledger of the pointers in a pass. -/
def reporting (config : Config) (document : Document) : Ledger config where
  Inv := Reported document
  Later := State.Extends
  Fits state _ _ schema := ∀ pointer, schema.RefersTo pointer → state.Admits document pointer
  Becomes state _ _ _ result := state.Settled document result
  Loses pointer := document.Loses pointer
  Lists state pointer := pointer ∈ state.report.unresolved
  later_refl := State.Extends.refl
  later_trans := State.Extends.trans
  fits_later later fits pointer refers := later.admits (fits pointer refers)
  becomes_later later := later.settled
  lists_later later listed := later.unresolved listed
  sameWork reported same := ⟨reported.sameWork same, State.Extends.sameWork same⟩
  fits_child fits below pointer refers :=
    fits pointer (refersTo_of_mem_children_hoisted below refers)
  found _ fits leads := settled_reference (fits _ (Schema.RefersTo.here rfl)) (Or.inl leads)
  missed := by
    intro before after policy role target reported fits lost reports
    have admits := fits target.pointer (Schema.RefersTo.here rfl)
    have later := State.Extends.reports reports
    exact ⟨reported.reports reports (Or.inl (reported.misses admits lost)), later,
      settled_reference (later.admits admits) (Or.inr reports.mem_unresolved)⟩
  lost reported lost reports :=
    ⟨reported.reports reports (Or.inr lost), State.Extends.reports reports,
      reports.mem_unresolved⟩
  kept _ inline _ related := settled_withChildren inline (fun _ _ _ settled => settled) related
  shared := by
    intro before after policy role schema derived name reported _ _ _ found shares
    have there : name ∈ Members.keys before.registry.schemas := reported.named.mem_keys found
    exact ⟨reported.shares shares, State.Extends.shares shares,
      settled_replacement (by rwa [shares.registry]) schema⟩
  opened reported fits _ _ opens :=
    ⟨reported.opens opens,
      fun pointer refers => (State.Extends.opens opens).admits (fits pointer refers)⟩
  closed := by
    intro before middle after policy role schema derived name below _ _ moves opens ends later _
      related
    have settled := settled_withChildren (Schema.isReference_of_extractedAt moves)
      (fun _ _ _ settled => settled) related
    have last := State.Extends.withComponent after name (schema.hoisted.withChildren below)
    refine ⟨ends.withComponent fun _ => settled, ((State.Extends.opens opens).trans later).trans
      last, settled_replacement (last.names (later.names ?_)) schema⟩
    rw [opens.schemas, Members.keys_append]
    exact List.mem_append_right _ List.mem_cons_self
  taken := by
    intro before name schema reported original
    refine ⟨reported.withComponent fun _ => settled_blank, fun fits pointer refers => ?_⟩
    exact (State.Extends.withComponent before name .blank).admits (fits pointer refers)
  returned := by
    intro before after name schema result _ original ends later grows
    have last := State.Extends.withComponent after name result
    refine ⟨ends.withComponent fun registered => ?_,
      ((State.Extends.withComponent before name .blank).trans later).trans last, last.settled⟩
    apply absurd _ (ends.named.not_mem_initial_of_name registered)
    rw [grows.initial]
    exact Members.mem_keys_of_mem (Members.mem_of_get?_eq_some original)
  fits_again _ settled := settled.admits
  again _ _ settled := settled

/-- A pass over a document whose component schemas have different names, with any configuration,
reports each pointer once. It reports every reference in a schema that leads to no component schema
after the pass, and every reference to a request body or a response that leads nowhere. Nothing else
is reported but references in the schemas of the document that led to no component schema before the
pass. -/
theorem flatten_unresolved (config : Config) {document : Document}
    (distinct : Members.Distinct document.components.schemas) :
    ∃ outcome, document.flatten config = .ok outcome ∧
      outcome.report.unresolved.Nodup ∧
      (∀ pointer, outcome.document.Misses pointer → pointer ∈ outcome.report.unresolved) ∧
      (∀ pointer, document.Loses pointer → pointer ∈ outcome.report.unresolved) ∧
      ∀ pointer ∈ outcome.report.unresolved,
        document.Misses pointer ∨ document.Loses pointer := by
  have own : document.Related (Keeps fun _ => Meets document) document :=
    Document.related_self fun _ _ inside => Meets.mentioned inside
  have fits : ∀ schema, Meets document schema → ∀ pointer, schema.RefersTo pointer →
      (start config document).Admits document pointer :=
    fun schema meets pointer refers => Or.inl (meets.shown refers)
  obtain ⟨outcome, after, run, settles, report, _⟩ := (reporting config document).flatten
    (Reported.start config distinct) distinct (fun _ lost => lost)
    (own.mono fun _ schema _ keeps => ⟨keeps.1, fits schema keeps.2⟩)
    (fun _ schema present => fits schema (Meets.component present))
  have reported : Reported document after := settles.inv
  refine ⟨outcome, run, ?_⟩
  rw [report]
  refine ⟨reported.nodup, ?_, settles.listed, reported.sound⟩
  rintro pointer ⟨shown, lost⟩
  rw [settles.schemas] at lost
  have ends : after.Leads pointer ∨ pointer ∈ after.report.unresolved := by
    rcases settles.exists_refersTo reported.named reported.initial shown with
      outside | component | registered
    · rcases outside with ⟨_, _, _, _, ⟨_, settled⟩, refers⟩
      exact (settled pointer refers).2
    · rcases component with ⟨_, _, _, _, settled, refers⟩
      exact (settled pointer refers).2
    · rcases registered with ⟨name, content, present, registered, refers⟩
      exact (reported.contents name content present registered pointer refers).2
  exact ends.resolve_left lost

/-- A document in which a schema, an operation and a component response refer to what is not
there. -/
def strays : Document where
  openapi := "3.0.1"
  paths := [("/jobs", ⟨[], [(.post, ⟨none, [],
    some (.reference ⟨"#/components/requestBodies/Job", []⟩), [], [], []⟩)], []⟩)]
  components :=
    { schemas := [("Job", .array ⟨some (.reference ⟨"#/components/schemas/Task", []⟩), {}⟩)]
      responses := [("Accepted", .reference ⟨"#/components/responses/Done", []⟩)] }

example : (strays.flatten {}).map (fun outcome => outcome.report.unresolved) =
    .ok ["#/components/requestBodies/Job", "#/components/responses/Done",
      "#/components/schemas/Task"] := by
  decide +kernel

/-- The strays are reported, and nothing else. -/
theorem strays_unresolved :
    Members.Distinct strays.components.schemas ∧
      ∃ outcome, strays.flatten {} = .ok outcome ∧
        outcome.report.unresolved.Nodup ∧
        (∀ pointer, outcome.document.Misses pointer → pointer ∈ outcome.report.unresolved) ∧
        (∀ pointer, strays.Loses pointer → pointer ∈ outcome.report.unresolved) ∧
        ∀ pointer ∈ outcome.report.unresolved, strays.Misses pointer ∨ strays.Loses pointer :=
  ⟨by decide, flatten_unresolved {} (by decide)⟩

end Flatten

end SchemaLift
