import SchemaLift.Proofs.Flatten.Registered
import SchemaLift.Proofs.Flatten.Unresolved

/-!
# References that registered names capture

A name is chosen among the keys of the component schemas, and references do not count. So a pass
takes no name to which a reference leads already, but it may take the name in a reference that leads
nowhere; the reference then leads to the component that was registered (`flatten_captures`).
-/

namespace SchemaLift

/-- A text with a fixed beginning is that beginning and what follows. -/
theorem Text.eq_append_of_dropLead? {lead text rest : String}
    (cut : Text.dropLead? lead text = some rest) : text = lead ++ rest := by
  rw [Text.dropLead?] at cut
  split at cut
  · next starts =>
      rcases List.isPrefixOf_iff_prefix.mp starts with ⟨tail, whole⟩
      rw [← whole, List.drop_left] at cut
      cases cut
      rw [← String.toList_inj, String.toList_append, String.toList_ofList]
      exact whole.symm
  · contradiction

/-- Names that are added let a pointer lead somewhere exactly when its own name is among them. -/
theorem Pointer.found_append_iff {pointer : String} {names added : List String}
    (lost : ¬Pointer.Found Pointer.schemas names pointer) :
    Pointer.Found Pointer.schemas (names ++ added) pointer ↔
      ∃ name ∈ added, Pointer.toSchema name = pointer := by
  rcases Pointer.exists_of_not_found lost with ⟨own, cut, absent⟩
  rw [Pointer.found_iff cut, List.mem_append]
  constructor
  · intro present
    exact ⟨own, present.resolve_left absent, (Text.eq_append_of_dropLead? cut).symm⟩
  · rintro ⟨name, inside, rfl⟩
    cases (Text.dropLead?_append Pointer.schemas name).symm.trans cut
    exact Or.inr inside

namespace Flatten

/-- In a pass over a document whose component schemas have different names, with any configuration,
a registered name is never that of a reference that led to a component schema before the pass. A
reference that led to none leads to one afterwards exactly when its name has been registered. Each
registered name is the one nearest to the base name of an extraction among those that are no keys by
then. -/
theorem flatten_captures (config : Config) {document : Document}
    (distinct : Members.Distinct document.components.schemas) :
    ∃ outcome, document.flatten config = .ok outcome ∧
      (∀ name ∈ outcome.report.registered,
        Schema.Shown (Pointer.toSchema name) document.sightings →
          document.Misses (Pointer.toSchema name)) ∧
      (∀ pointer, document.Misses pointer →
        (Pointer.Found Pointer.schemas (Members.keys outcome.document.components.schemas) pointer ↔
          ∃ name ∈ outcome.report.registered, Pointer.toSchema name = pointer)) ∧
      ∀ front name back, outcome.report.registered = front ++ name :: back →
        ∃ extraction ∈ outcome.extractions, extraction.name = name ∧
          Registry.Nearest (Members.keys document.components.schemas ++ front) extraction.base
            name := by
  rcases exists_registered config distinct with ⟨outcome, after, run, settles, report, extractions⟩
  have keys := keys_of_settles settles
  refine ⟨outcome, run, ?_⟩
  rw [report, extractions]
  refine ⟨?_, ?_, fun _ _ _ split => nearest_of_settles settles split⟩
  · intro name registered shown
    refine ⟨shown, fun found => ?_⟩
    exact not_mem_keys_of_settles settles registered (Pointer.found_toSchema.mp found)
  · rintro pointer ⟨_, lost⟩
    rw [keys]
    exact Pointer.found_append_iff lost

/-- A document in which an order refers to the address of users, which is no component schema. -/
def orders : Document :=
  .ofSchemas
    [("User", .object
      ⟨[("address", .object
        ⟨[("street", .primitive { metadata := { declaredType := some (.single "string") } })],
          [], .unspecified, none, { declaredType := some (.single "object") }⟩)],
        [], .unspecified, none, { declaredType := some (.single "object") }⟩),
     ("Order", .object
      ⟨[("target", .reference ⟨"#/components/schemas/User_address", []⟩)],
        [], .unspecified, none, { declaredType := some (.single "object") }⟩)]

theorem orders_misses : orders.Misses (Pointer.toSchema "User_address") := by
  constructor
  · apply List.mem_filterMap.mp
    decide +kernel
  · rw [Pointer.found_toSchema]
    decide

/-- The address is registered under the name in the order's reference, and nothing is reported. -/
theorem flatten_orders_captures :
    orders.Misses (Pointer.toSchema "User_address") ∧
      ∃ outcome, orders.flatten {} = .ok outcome ∧
        outcome.report.registered = ["User_address"] ∧ outcome.report.unresolved = [] := by
  have lists : (orders.flatten {}).map
      (fun outcome => (outcome.report.registered, outcome.report.unresolved)) =
        .ok (["User_address"], []) := by
    decide +kernel
  refine ⟨orders_misses, ?_⟩
  cases run : orders.flatten {} with
  | error missing => simp [run, Except.map] at lists
  | ok outcome =>
      rw [run] at lists
      cases outcome
      simpa [Except.map] using lists

/-- The names of the orders, which are asked for the references that they capture. -/
theorem orders_captures :
    Members.Distinct orders.components.schemas ∧
      ∃ outcome, orders.flatten {} = .ok outcome ∧
        (∀ name ∈ outcome.report.registered,
          Schema.Shown (Pointer.toSchema name) orders.sightings →
            orders.Misses (Pointer.toSchema name)) ∧
        (∀ pointer, orders.Misses pointer →
          (Pointer.Found Pointer.schemas (Members.keys outcome.document.components.schemas)
              pointer ↔
            ∃ name ∈ outcome.report.registered, Pointer.toSchema name = pointer)) ∧
        ∀ front name back, outcome.report.registered = front ++ name :: back →
          ∃ extraction ∈ outcome.extractions, extraction.name = name ∧
            Registry.Nearest (Members.keys orders.components.schemas ++ front) extraction.base
              name :=
  ⟨by decide, flatten_captures {} (by decide)⟩

end Flatten

end SchemaLift
