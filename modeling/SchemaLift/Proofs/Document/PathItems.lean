import SchemaLift.Document.Reader
import SchemaLift.Proofs.Members.Related
import SchemaLift.Proofs.Members.Taking
import SchemaLift.Proofs.Schema.Reader

/-!
# How path items are read

Path items, operations and callbacks contain one another, so that the functions that read them go
through the members of an object one by one. They find what lookups find. This is said once for each
of the three (`PathItem.ofJson_object_eq`, `Operation.ofJson_object_eq`,
`Callback.ofJson_object_eq`), and what is proved of the reader starts from these equations.
-/

namespace SchemaLift

open Members

/-! ## Lists, optional values and entries -/

theorem mapM_eq_ok_iff {ε α β : Type} {read : α → Except ε β} {values : List α} {results : List β} :
    values.mapM read = .ok results ↔
      List.Forall₂ (fun value result => read value = .ok result) values results := by
  induction values generalizing results with
  | nil => simp [pure, Except.pure, eq_comm]
  | cons value rest ih =>
      simp only [List.mapM_cons, bind_eq_ok_iff, pure_eq_ok_iff, ih]
      constructor
      · rintro ⟨first, own, others, later, rfl⟩
        exact List.Forall₂.cons own later
      · intro all
        cases all with
        | cons own later => exact ⟨_, own, _, later, rfl⟩

theorem optionMapM_eq_ok_iff {ε α β : Type} {read : α → Except ε β} {value : Option α}
    {result : Option β} :
    value.mapM read = .ok result ↔
      Option.Rel (fun value result => read value = .ok result) value result := by
  cases value with
  | none =>
      constructor
      · intro found
        cases found
        exact Option.Rel.none
      · intro all
        cases all
        rfl
  | some value =>
      rw [Option.mapM_some, map_eq_pure_bind, bind_eq_ok_iff]
      constructor
      · rintro ⟨own, found, same⟩
        cases pure_eq_ok_iff.mp same
        exact Option.Rel.some found
      · intro all
        cases all with
        | some found => exact ⟨_, found, rfl⟩

theorem exists_of_optionMapM {ε α β : Type} {read : α → Except ε β} {value : Option α} {result : β}
    (found : value.mapM read = .ok (some result)) :
    ∃ inner, value = some inner ∧ read inner = .ok result := by
  cases optionMapM_eq_ok_iff.mp found with
  | some own => exact ⟨_, rfl, own⟩

section Entries

variable {α : Type} {read : String → Json → Except Fault α}

theorem readEntries_eq_ok_iff {entries : Members Json} {members : Members α} :
    readEntries read entries = .ok members ↔
      Members.Related (fun name value entry => read name value = .ok entry) entries members := by
  induction entries generalizing members with
  | nil =>
      constructor
      · intro result
        cases result
        exact Members.Related.nil
      · intro all
        cases all
        rfl
  | cons entry rest ih =>
      rcases entry with ⟨name, value⟩
      simp only [readEntries, bind_eq_ok_iff, pure_eq_ok_iff, ih]
      constructor
      · rintro ⟨first, own, others, later, rfl⟩
        exact Members.Related.cons own later
      · intro all
        cases all with
        | cons own later => exact ⟨_, own, _, later, rfl⟩

theorem readEntries_append (front back : Members Json) :
    readEntries read (front ++ back) = (do
      let first ← readEntries read front
      let second ← readEntries read back
      pure (first ++ second)) := by
  induction front with
  | nil =>
      rw [List.nil_append, readEntries]
      cases readEntries read back <;> rfl
  | cons entry rest ih =>
      rcases entry with ⟨key, value⟩
      simp [readEntries, ih, bind_assoc]

end Entries

/-! ## Callbacks -/

theorem expressionsWhere_eq (wanted : String → Bool) (members : Members Json) :
    expressionsWhere wanted members =
      readEntries (fun path => PathItem.ofJson (.callbackItem path) path)
        (members.filter fun member => wanted member.1) := by
  induction members with
  | nil => rfl
  | cons member rest ih =>
      rcases member with ⟨path, value⟩
      cases asked : wanted path with
      | false =>
          simp only [expressionsWhere, List.filter_cons, asked, Bool.false_eq_true, if_false, ih]
      | true => simp only [expressionsWhere, List.filter_cons, asked, if_true, readEntries, ih]

/-- The path items of a callback. -/
def Callback.ofMembers (members : Members Json) : Except Fault Callback :=
  (readEntries (fun path => PathItem.ofJson (.callbackItem path) path) members).map Callback.mk

theorem Callback.related_of_ofMembers {members : Members Json} {callback : Callback}
    (read : ofMembers members = .ok callback) :
    Members.Related (fun path value item =>
        PathItem.ofJson (.callbackItem path) path value = .ok item)
      members callback.expressions := by
  rw [ofMembers] at read
  cases entries : readEntries (fun path => PathItem.ofJson (.callbackItem path) path) members with
  | error =>
      rw [entries] at read
      cases read
  | ok items =>
      rw [entries] at read
      cases read
      exact readEntries_eq_ok_iff.mp entries

/-- A callback is read like other items that can be references. -/
theorem Callback.ofJson_object_eq {members : Members Json} (distinct : Distinct members) :
    Callback.ofJson (.object members) = RefOr.ofJson .callback ofMembers (.object members) := by
  rw [Callback.ofJson, RefOr.ofJson]
  cases Reference.ofMembers? members with
  | some target => rfl
  | none =>
      simp only [expressionsWhere_eq, ofMembers, withoutReference, moveToEnd_eq distinct,
        readEntries_append]
      generalize readEntries _ (members.filter fun member => decide (member.1 ≠ "$ref")) = first
      generalize readEntries _ (members.filter fun member => decide (member.1 = "$ref")) = second
      cases first with
      | error => rfl
      | ok => cases second <;> rfl

theorem callbacksOf_eq (entries : Members Json) :
    callbacksOf entries = readEntries (fun _ => Callback.ofJson) entries := by
  induction entries with
  | nil => rfl
  | cons entry rest ih =>
      rcases entry with ⟨name, value⟩
      simp only [callbacksOf, readEntries, ih]

theorem callbacksIn_eq_readIfObject (members : Members Json) :
    callbacksIn members = readIfObject (fun _ => Callback.ofJson) (get? "callbacks" members) := by
  induction members with
  | nil => rfl
  | cons member rest ih =>
      rcases member with ⟨name, value⟩
      by_cases same : name = "callbacks"
      · rw [get?_cons, if_pos same]
        cases value <;> simp only [callbacksIn, if_pos same, readIfObject, callbacksOf_eq]
      · rw [get?_cons, if_neg same, ← ih]
        cases value <;> simp only [callbacksIn, if_neg same]

/-! ## Operations -/

/-- An operation is read by lookups and a filter. -/
theorem Operation.ofJson_object_eq (path : String) (method : Method) (members : Members Json) :
    ofJson path method (.object members) = (do
      let parameters ← Parameter.listOf (get? "parameters" members)
      let requestBody ← (get? "requestBody" members).mapM RequestBody.ofJson
      let responses ← readIfObject (fun _ => Response.ofJson) (get? "responses" members)
      let callbacks ← readIfObject (fun _ => Callback.ofJson) (get? "callbacks" members)
      pure
        { operationId := (get? "operationId" members).bind Json.string?
          parameters, requestBody, responses, callbacks, extra := extraOf members }) := by
  rw [ofJson, callbacksIn_eq_readIfObject]
  cases get? "requestBody" members with
  | none => rfl
  | some value => simp only [Option.mapM_some, map_eq_pure_bind, bind_assoc, pure_bind]

theorem operationAt_eq_mapM (path : String) (method : Method) (members : Members Json) :
    operationAt path method members =
      (get? method.key members).mapM (Operation.ofJson path method) := by
  induction members with
  | nil => rfl
  | cons member rest ih =>
      rcases member with ⟨name, value⟩
      by_cases same : name = method.key
      · rw [operationAt, get?_cons, if_pos same, if_pos same, Option.mapM_some, map_eq_pure_bind]
      · rw [operationAt, get?_cons, if_neg same, if_neg same, ih]

/-! ## Path items -/

/-- The operations under the keys of some methods. -/
def operationsIn (path : String) (members : Members Json) :
    List Method → Except Fault (List (Method × Operation))
  | [] => .ok []
  | method :: rest => do
    let own ← operationAt path method members
    let others ← operationsIn path members rest
    pure (own.toList.map (fun operation => (method, operation)) ++ others)

theorem PathItem.ofJson_object_eq (place : Place) (path : String) (members : Members Json) :
    PathItem.ofJson place path (.object members) = (do
      let parameters ← Parameter.listOf (get? "parameters" members)
      let operations ← operationsIn path members Method.all
      pure ⟨parameters, operations, extraOf members⟩) := by
  rw [ofJson]
  have listed : ∀ (method : Method) (own : Option Operation)
      (rest : List (Method × Option Operation)),
      ((method, own) :: rest).filterMap (fun entry => entry.2.map fun own => (entry.1, own)) =
        own.toList.map (fun operation => (method, operation)) ++
          rest.filterMap fun entry => entry.2.map fun own => (entry.1, own) := by
    intro method own rest
    cases own <;> rfl
  simp only [Method.all, operationsIn, bind_assoc, pure_bind, List.zip_cons_cons,
    List.zip_nil_left, listed, List.filterMap_nil]
  rfl

section Operations

variable {path : String} {members : Members Json} {methods : List Method}
  {operations : List (Method × Operation)}

/-- The operations that are read come in the order in which they are asked for, and each is read
from what stands under the key of its method. -/
theorem of_operationsIn (read : operationsIn path members methods = .ok operations) :
    (keys operations).Sublist methods ∧
      ∀ method operation, (method, operation) ∈ operations →
        ∃ value, get? method.key members = some value ∧
          Operation.ofJson path method value = .ok operation := by
  induction methods generalizing operations with
  | nil =>
      cases read
      exact ⟨List.nil_sublist [], by simp⟩
  | cons method rest ih =>
      rcases bind_eq_ok_iff.mp read with ⟨own, found, read⟩
      rcases bind_eq_ok_iff.mp read with ⟨others, later, read⟩
      cases pure_eq_ok_iff.mp read
      rcases ih later with ⟨methods, each⟩
      rw [operationAt_eq_mapM, optionMapM_eq_ok_iff] at found
      generalize there : get? method.key members = stored at found
      cases found with
      | none => exact ⟨methods.cons _, each⟩
      | some inside =>
          refine ⟨methods.cons_cons _, fun other result present => ?_⟩
          rcases List.mem_cons.mp present with same | behind
          · cases same
            exact ⟨_, there, inside⟩
          · exact each other result behind

/-- What stands under the key of a method that is asked for is read as an operation. -/
theorem exists_of_operationsIn (read : operationsIn path members methods = .ok operations)
    (distinct : methods.Nodup) {method : Method} (listed : method ∈ methods) {value : Json}
    (found : get? method.key members = some value) :
    ∃ operation, get? method operations = some operation ∧
      Operation.ofJson path method value = .ok operation := by
  induction methods generalizing operations with
  | nil => cases listed
  | cons first rest ih =>
      rcases List.nodup_cons.mp distinct with ⟨absent, apart⟩
      rcases bind_eq_ok_iff.mp read with ⟨own, here, read⟩
      rcases bind_eq_ok_iff.mp read with ⟨others, later, read⟩
      cases pure_eq_ok_iff.mp read
      rcases List.mem_cons.mp listed with rfl | behind
      · rw [operationAt_eq_mapM, found, optionMapM_eq_ok_iff] at here
        cases here with
        | some inside => exact ⟨_, by simp [get?_cons], inside⟩
      · rcases ih later apart behind with ⟨operation, there, inside⟩
        have differs : first ≠ method := fun same => absent (same ▸ behind)
        refine ⟨operation, ?_, inside⟩
        cases own <;> simp [get?_cons, differs, there]

end Operations

end SchemaLift
