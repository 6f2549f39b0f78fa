import SchemaLift.Proofs.Flatten.Linking

/-!
# Enumerations in place

A leaf with a list of allowed values stands in place when it is written at an ordinary position or
as an alternative; a component schema or a member of `allOf` may be one. Where enumerations count, a
visit leaves none in place; elsewhere it leaves none where there was none (`Visited.enumFree`).
-/

namespace SchemaLift

/-- Whether a schema is a leaf with a list of allowed values. -/
def Schema.isEnum : Schema → Bool
  | .primitive leaf => !leaf.enumValues.isEmpty
  | _ => false

/-- No enumeration stands in place here or below. -/
inductive Schema.EnumFree : Role → Schema → Prop
  | intro {role : Role} {schema : Schema}
      (own : role = .slot ∨ role = .alternative → schema.isEnum = false)
      (below : ∀ edge child, (edge, child) ∈ schema.children → EnumFree edge.role child) :
      EnumFree role schema

namespace Schema

variable {left right schema : Schema} {role : Role} {pointer : String}

theorem enumFree_of_children_eq_nil (own : schema.isEnum = false) (none : schema.children = []) :
    schema.EnumFree role := by
  apply EnumFree.intro fun _ => own
  intro edge child below
  rw [none] at below
  cases below

theorem EnumFree.component (free : schema.EnumFree role) : schema.EnumFree .component := by
  rcases free with ⟨_, below⟩
  exact EnumFree.intro (by simp) below

theorem EnumFree.bare {lifted : Bool} (free : schema.EnumFree role) :
    (schema.bare lifted).EnumFree role := by
  rcases free with ⟨own, below⟩
  refine EnumFree.intro (fun inside => ?_) (by simpa using below)
  cases schema with
  | primitive leaf => exact own inside
  | _ => rfl

/-- The children are free of enumerations after hoisting, too. -/
theorem EnumFree.child_hoisted (free : schema.EnumFree role) {edge : Edge} {child : Schema}
    (present : (edge, child) ∈ schema.hoisted.children) : child.EnumFree edge.role := by
  rcases free with ⟨_, below⟩
  rcases exists_bare_of_mem_children_hoisted present with ⟨original, lifted, inside, rfl⟩
  exact (below edge original inside).bare

/-! ## Equal schemas -/

/-- A child of a schema equals one of an equal schema at the same edge. -/
theorem exists_child_of_same (equal : left.same right = true) {edge : Edge} {child : Schema}
    (present : (edge, child) ∈ left.children) :
    ∃ other, (edge, other) ∈ right.children ∧ child.same other = true := by
  rcases ((same_iff_matches left right).mp equal).2.2 edge child present with
    ⟨other, found, same⟩
  exact ⟨other, Members.mem_of_get?_eq_some found, same⟩

theorem isEnum_of_same (equal : left.same right = true) : left.isEnum = right.isEnum := by
  have own := ((same_iff_matches left right).mp equal).1
  cases left <;> cases right <;>
    simp only [sameOwn, Bool.false_eq_true, Bool.and_eq_true, beq_iff_eq] at own
  case primitive leaf other =>
    simp only [PrimitiveSchema.same, Bool.and_eq_true] at own
    cases values : leaf.enumValues <;> cases others : other.enumValues <;>
      simp_all [isEnum, Json.sameElements]
  all_goals rfl

theorem EnumFree.of_same (free : right.EnumFree role) (equal : left.same right = true) :
    left.EnumFree role := by
  induction left using Schema.induction generalizing right role with
  | step left ih =>
      rcases free with ⟨own, below⟩
      refine EnumFree.intro (fun inside => (isEnum_of_same equal).trans (own inside)) ?_
      intro edge child present
      rcases exists_child_of_same equal present with ⟨other, there, same⟩
      exact ih edge child present (below edge other there) same

/-- Equal schemas have the same pointers. -/
theorem RefersTo.of_same (refers : left.RefersTo pointer) (equal : left.same right = true) :
    right.RefersTo pointer := by
  induction refers generalizing right with
  | here own =>
      cases right <;> simp only [same, Bool.false_eq_true] at equal
      next target other =>
      simp only [Reference.same, Bool.and_eq_true, beq_iff_eq] at equal
      exact RefersTo.here (equal.1.symm.trans own)
  | child present _ ih =>
      rcases exists_child_of_same equal present with ⟨other, there, same⟩
      exact RefersTo.child there (ih same)

end Schema

namespace Flatten

/-! ## Visits -/

variable {policy : Policy} {role : Role} {schema result : Schema}

/-- Where enumerations count, what is quiet has none in place. -/
theorem Quiet.enumFree (quiet : Quiet policy role schema) (counts : policy.inlineEnums = true) :
    schema.EnumFree role := by
  induction schema using Schema.induction generalizing role with
  | step schema ih =>
      rcases quiet with ⟨stays, below⟩
      refine Schema.EnumFree.intro (fun inside => ?_) fun edge child present =>
        ih edge child present (below edge child present)
      have free := Schema.isExtractable_of_extractedAt inside stays
      cases schema with
      | primitive leaf => simpa [Schema.isExtractable, counts, Schema.isEnum] using free
      | _ => rfl

/-- A visit leaves no enumeration in place where there was none. -/
theorem Visited.enumFree_of_enumFree {known : String → Schema → Prop}
    (visited : Visited policy known role schema result) (free : schema.EnumFree role) :
    result.EnumFree role := by
  induction schema using Schema.induction_hoisted generalizing role result with
  | step schema ih =>
      cases visited with
      | reference => exact free
      | moved => exact Schema.enumFree_of_children_eq_nil rfl rfl
      | kept _ _ visited =>
          constructor
          · intro inside
            rcases free with ⟨own, _⟩
            cases schema with
            | primitive leaf => exact own inside
            | _ => rfl
          · intro edge child present
            rw [Schema.children_withChildren visited.keys_eq] at present
            rcases visited.exists_left present with ⟨original, there, becomes⟩
            exact ih edge original there becomes (free.child_hoisted there)

/-- A visit leaves no enumeration in place where they count, or where there was none. -/
theorem Visited.enumFree {known : String → Schema → Prop}
    (visited : Visited policy known role schema result)
    (free : policy.inlineEnums = true ∨ schema.EnumFree role) : result.EnumFree role := by
  rcases free with counts | free
  · exact (visited.quiet (Policy.Within.refl policy)).enumFree counts
  · exact visited.enumFree_of_enumFree free

/-! ## Surroundings -/

/-- The schemas that a pass over a document meets in surroundings where enumerations count, or in
others. -/
inductive MetIn (document : Document) : Bool → Schema → Prop
  | mentioned {enums : Bool} {schema : Schema} (inside : document.Mentions enums schema) :
      MetIn document enums schema
  | component {name : String} {schema : Schema}
      (present : (name, schema) ∈ document.components.schemas) : MetIn document false schema
  | child {enums : Bool} {schema child : Schema} {edge : Edge}
      (parent : MetIn document enums schema)
      (below : (edge, child) ∈ schema.hoisted.children) : MetIn document enums child

/-- The pointers that are met where enumerations count are those of what the document mentions
there. -/
theorem MetIn.exists_refersTo {document : Document} (met : MetIn document true schema)
    {pointer : String} (refers : schema.RefersTo pointer) :
    ∃ root, document.Mentions true root ∧ root.RefersTo pointer := by
  generalize counts : true = enums at met
  induction met with
  | mentioned inside =>
      subst counts
      exact ⟨_, inside, refers⟩
  | component => contradiction
  | child _ below ih => exact ih (refersTo_of_mem_children_hoisted below refers) counts

/-- No schema that is met where enumerations do not count, and that has one in place, equals one
that is met where they do. -/
def KeepsApart (document : Document) : Prop :=
  ∀ outer inner, MetIn document false outer → MetIn document true inner →
    outer.same inner = true → outer.EnumFree .component

/-- Schemas are apart if no enumeration stands in place where enumerations do not count. -/
theorem keepsApart_of_enumFree {document : Document}
    (mentioned : ∀ schema, document.Mentions false schema → schema.EnumFree .component)
    (components : ∀ name schema, (name, schema) ∈ document.components.schemas →
      schema.EnumFree .component) : KeepsApart document := by
  rintro outer _ met - -
  generalize counts : false = enums at met
  induction met with
  | mentioned inside => exact mentioned _ (counts ▸ inside)
  | component present => exact components _ _ present
  | child _ below ih => exact ((ih counts).child_hoisted below).component

end Flatten

end SchemaLift
