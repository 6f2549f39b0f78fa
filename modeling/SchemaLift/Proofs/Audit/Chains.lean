import SchemaLift.Proofs.Audit.Resolution
import SchemaLift.Proofs.Flatten.Naming

/-!
# Chains of references

A reference to a component schema stands for that schema, which may be such a reference again. The
chain that starts at a schema (`Schema.Chain`) is determined by it. If it ends, it passes no name
twice (`Schema.Chain.nodup_of_end`), since from a schema on a round trip there is always a way on.
So nothing is lost by giving up at the first name that comes back, which happens after at most as
many hops as there are component schemas.
-/

namespace SchemaLift

theorem Text.dropLead?_eq_some_iff {lead text rest : String} :
    Text.dropLead? lead text = some rest ↔ text = lead ++ rest := by
  constructor
  · intro cut
    unfold Text.dropLead? at cut
    split at cut
    · next starts =>
        obtain ⟨behind, split⟩ := List.isPrefixOf_iff_prefix.mp starts
        rw [← split, List.drop_left] at cut
        obtain rfl := Option.some.inj cut
        apply String.toList_injective
        rw [String.toList_append, String.toList_ofList, split]
    · contradiction
  · rintro rfl
    exact Text.dropLead?_append lead rest

namespace Schema

/-! ## Hops -/

/-- The schema refers to the component schema of that name, which holds no slash. -/
inductive LinksTo (name : String) : Schema → Prop
  | intro {target : Reference} (pointer : target.pointer = Pointer.toSchema name)
    (plain : '/' ∉ name.toList) : LinksTo name (.reference target)

/-- A reference to a component schema is replaced by that schema. -/
def Hop (schemas : Members Schema) (name : String) (schema next : Schema) : Prop :=
  LinksTo name schema ∧ Members.get? name schemas = some next

variable {schemas : Members Schema}

theorem target?_eq_some_iff {target : Reference} {name : String} :
    target? target.pointer = some name ↔ LinksTo name (.reference target) := by
  have slashes : (!Text.holds '/' name) = true ↔ '/' ∉ name.toList := by
    rw [Bool.not_eq_true', ← Bool.not_eq_true, Text.holds_iff]
  rw [target?, Option.filter_eq_some_iff, slashes, Pointer.schemaName?,
    Text.dropLead?_eq_some_iff]
  constructor
  · rintro ⟨pointer, plain⟩
    exact .intro pointer plain
  · rintro ⟨pointer, plain⟩
    exact ⟨pointer, plain⟩

theorem LinksTo.isReference {name : String} {schema : Schema} (links : LinksTo name schema) :
    schema.isReference = true := by
  cases links
  rfl

theorem LinksTo.unique {name other : String} {schema : Schema} (links : LinksTo name schema)
    (linksToo : LinksTo other schema) : name = other := by
  cases links with
  | intro pointer plain =>
      cases linksToo with
      | intro pointerToo plainToo =>
          exact Pointer.toSchema_injective (pointer.symm.trans pointerToo)

theorem Hop.unique {name other : String} {schema next nextToo : Schema}
    (hop : Hop schemas name schema next) (hopToo : Hop schemas other schema nextToo) :
    name = other ∧ next = nextToo := by
  obtain rfl := hop.1.unique hopToo.1
  exact ⟨rfl, Option.some.inj (hop.2.symm.trans hopToo.2)⟩

/-! ## Chains -/

/-- The chain from the first schema gets to the last one by way of the component schemas with these
names, the latest name first. -/
inductive Chain (schemas : Members Schema) (first : Schema) : List String → Schema → Prop
  | start : Chain schemas first [] first
  | hop {names : List String} {schema next : Schema} {name : String}
    (chain : Chain schemas first names schema) (hop : Hop schemas name schema next) :
    Chain schemas first (name :: names) next

namespace Chain

variable {first middle last : Schema} {names others : List String}

/-- A chain ends at once or has a first hop. -/
theorem start_or_hop (chain : Chain schemas first names last) :
    names = [] ∧ last = first ∨ ∃ name next rest, Hop schemas name first next ∧
      Chain schemas next rest last ∧ names = rest ++ [name] := by
  induction chain with
  | start => exact .inl ⟨rfl, rfl⟩
  | hop _ hop ih =>
      right
      rcases ih with ⟨rfl, rfl⟩ | ⟨name, next, rest, start, chain, rfl⟩
      · exact ⟨_, _, [], hop, .start, rfl⟩
      · exact ⟨name, next, _ :: rest, start, chain.hop hop, rfl⟩

theorem exists_hop (chain : Chain schemas first names last) (moves : names ≠ []) :
    ∃ name next, Hop schemas name first next := by
  rcases chain.start_or_hop with ⟨none, -⟩ | ⟨name, next, _, hop, -⟩
  · exact absurd none moves
  · exact ⟨name, next, hop⟩

/-- Of two chains from the same schema, one goes on where the other one is. -/
theorem compare (chain : Chain schemas first names last)
    (chainToo : Chain schemas first others middle) :
    (∃ rest, Chain schemas last rest middle ∧ others = rest ++ names) ∨
      ∃ rest, Chain schemas middle rest last ∧ names = rest ++ others := by
  induction chain with
  | start => exact .inl ⟨others, chainToo, (List.append_nil others).symm⟩
  | @hop _ _ _ name _ hop ih =>
      rcases ih with ⟨rest, more, rfl⟩ | ⟨rest, more, rfl⟩
      · rcases more.start_or_hop with ⟨rfl, rfl⟩ | ⟨_, _, behind, same, beyond, rfl⟩
        · exact .inr ⟨[name], Chain.start.hop hop, rfl⟩
        · obtain ⟨rfl, rfl⟩ := hop.unique same
          exact .inl ⟨behind, beyond, by rw [List.append_assoc, List.singleton_append]⟩
      · exact .inr ⟨name :: rest, more.hop hop, rfl⟩

/-- If there is no way on, every chain from the same schema is a part of this one. -/
theorem rest_of_end (chain : Chain schemas first names last)
    (ends : ∀ name next, ¬Hop schemas name last next)
    (chainToo : Chain schemas first others middle) :
    ∃ rest, Chain schemas middle rest last ∧ names = rest ++ others := by
  rcases chain.compare chainToo with ⟨rest, more, rfl⟩ | part
  · rcases more.start_or_hop with ⟨rfl, rfl⟩ | ⟨name, next, _, hop, -⟩
    · exact ⟨[], .start, rfl⟩
    · exact absurd hop (ends name next)
  · exact part

/-! ## Round trips -/

/-- From a schema on a round trip there is always a way on. -/
theorem exists_hop_of_round (round : Chain schemas first names first) (moves : names ≠ [])
    (chain : Chain schemas first others last) : ∃ name next, Hop schemas name last next := by
  induction length : others.length using Nat.strongRecOn generalizing others with
  | ind count ih =>
      subst length
      rcases chain.compare round with ⟨rest, more, rfl⟩ | ⟨rest, more, rfl⟩
      · rcases more.start_or_hop with ⟨rfl, rfl⟩ | ⟨name, next, _, hop, -⟩
        · exact chain.exists_hop moves
        · exact ⟨name, next, hop⟩
      · refine ih rest.length ?_ more rfl
        rw [List.length_append]
        exact Nat.lt_add_of_pos_right (List.length_pos_of_ne_nil moves)

/-- A name that was passed is the name of a component schema from which the chain got here. -/
theorem exists_passed (chain : Chain schemas first names last) {name : String}
    (passed : name ∈ names) :
    ∃ next rest, Members.get? name schemas = some next ∧ Chain schemas next rest last := by
  induction chain with
  | start => contradiction
  | hop _ hop ih =>
      rcases List.mem_cons.mp passed with rfl | passed
      · exact ⟨_, [], hop.2, .start⟩
      · obtain ⟨next, rest, found, chain⟩ := ih passed
        exact ⟨next, _ :: rest, found, chain.hop hop⟩

/-- A chain that passes a name twice made a round trip. -/
theorem exists_round (chain : Chain schemas first names last) (twice : ¬names.Nodup) :
    ∃ schema round rest, round ≠ [] ∧ Chain schemas schema round schema ∧
      Chain schemas schema rest last := by
  induction chain with
  | start => exact absurd List.nodup_nil twice
  | @hop names _ next name chain hop ih =>
      by_cases passed : name ∈ names
      · obtain ⟨schema, rest, found, more⟩ := chain.exists_passed passed
        obtain rfl := Option.some.inj (found.symm.trans hop.2)
        exact ⟨schema, name :: rest, [], List.cons_ne_nil _ _, more.hop hop, .start⟩
      · obtain ⟨schema, round, rest, moves, back, more⟩ := ih fun distinct =>
          twice (List.nodup_cons.mpr ⟨passed, distinct⟩)
        exact ⟨schema, round, name :: rest, moves, back, more.hop hop⟩

/-- A chain that ends passes no name twice. -/
theorem nodup_of_end (chain : Chain schemas first names last)
    (ends : ∀ name next, ¬Hop schemas name last next) : names.Nodup := by
  by_contra twice
  obtain ⟨schema, round, rest, moves, back, more⟩ := chain.exists_round twice
  obtain ⟨name, next, hop⟩ := exists_hop_of_round back moves more
  exact ends name next hop

/-- Without a name twice there are at most as many hops as component schemas. -/
theorem length_le (chain : Chain schemas first names last) (distinct : names.Nodup) :
    names.length ≤ schemas.length := by
  have known : names ⊆ Members.keys schemas := by
    intro name passed
    obtain ⟨next, _, found, -⟩ := chain.exists_passed passed
    exact Members.mem_keys_of_mem (Members.mem_of_get?_eq_some found)
  calc names.length ≤ (Members.keys schemas).length := distinct.length_le_of_subset known
    _ = schemas.length := List.length_map _

/-- Two chains from the same schema are one if neither can go on but to a name it has passed. -/
theorem unique (chain : Chain schemas first names last)
    (chainToo : Chain schemas first others middle) (distinct : names.Nodup)
    (distinctToo : others.Nodup)
    (halts : ∀ name next, Hop schemas name last next → name ∈ names)
    (haltsToo : ∀ name next, Hop schemas name middle next → name ∈ others) :
    names = others ∧ last = middle := by
  rcases chain.compare chainToo with ⟨rest, more, rfl⟩ | ⟨rest, more, rfl⟩
  · rcases more.start_or_hop with ⟨rfl, rfl⟩ | ⟨name, next, behind, hop, -, rfl⟩
    · exact ⟨rfl, rfl⟩
    · rw [List.append_assoc, List.singleton_append] at distinctToo
      have fresh := (List.nodup_cons.mp distinctToo.of_append_right).1
      exact absurd (halts name next hop) fresh
  · rcases more.start_or_hop with ⟨rfl, rfl⟩ | ⟨name, next, behind, hop, -, rfl⟩
    · exact ⟨rfl, rfl⟩
    · rw [List.append_assoc, List.singleton_append] at distinct
      have fresh := (List.nodup_cons.mp distinct.of_append_right).1
      exact absurd (haltsToo name next hop) fresh

end Chain

/-! ## Outcomes -/

/-- Behind these names the search for what a schema stands for gives up there, with that error. -/
inductive Stops (schemas : Members Schema) (names : List String) :
    Schema → ResolutionError → Prop
  | outside {target : Reference} (foreign : ∀ name, target.pointer ≠ Pointer.toSchema name) :
    Stops schemas names (.reference target) (.dangling target.pointer)
  | nested {target : Reference} {name : String} (pointer : target.pointer = Pointer.toSchema name)
    (slash : '/' ∈ name.toList) :
    Stops schemas names (.reference target) (.dangling target.pointer)
  | missing {target : Reference} {name : String} (links : LinksTo name (.reference target))
    (absent : Members.get? name schemas = none) :
    Stops schemas names (.reference target) (.dangling target.pointer)
  | again {target : Reference} {name : String} (links : LinksTo name (.reference target))
    (passed : name ∈ names) :
    Stops schemas names (.reference target) (.cycle target.pointer)

/-- What becomes of the chain that starts at a schema. -/
inductive Resolves (schemas : Members Schema) (first : Schema) :
    Except ResolutionError Schema → Prop
  | ends {names : List String} {last : Schema} (chain : Chain schemas first names last)
    (inline : last.isReference = false) : Resolves schemas first (.ok last)
  | stops {names : List String} {last : Schema} {error : ResolutionError}
    (chain : Chain schemas first names last) (distinct : names.Nodup)
    (stops : Stops schemas names last error) : Resolves schemas first (.error error)

variable {first last : Schema} {names : List String} {error : ResolutionError}

theorem not_hop_of_inline (inline : last.isReference = false) (name : String) (next : Schema) :
    ¬Hop schemas name last next := by
  intro hop
  rw [hop.1.isReference] at inline
  contradiction

/-- Either there is no way on, or the way on leads to a name that was passed. -/
theorem Stops.cases_hop (stops : Stops schemas names last error) :
    ∃ target, last = .reference target ∧
      (error = .dangling target.pointer ∧ (∀ name next, ¬Hop schemas name last next) ∨
        error = .cycle target.pointer ∧ ∃ name ∈ names, LinksTo name last) := by
  cases stops with
  | @outside target foreign =>
      refine ⟨target, rfl, .inl ⟨rfl, ?_⟩⟩
      rintro name next ⟨⟨pointer, plain⟩, found⟩
      exact foreign name pointer
  | @nested target own pointer slash =>
      refine ⟨target, rfl, .inl ⟨rfl, ?_⟩⟩
      rintro name next ⟨⟨pointerToo, plain⟩, found⟩
      obtain rfl := Pointer.toSchema_injective (pointer.symm.trans pointerToo)
      exact plain slash
  | @missing target own links absent =>
      refine ⟨target, rfl, .inl ⟨rfl, ?_⟩⟩
      rintro name next ⟨linksToo, found⟩
      obtain rfl := links.unique linksToo
      rw [absent] at found
      contradiction
  | @again target own links passed => exact ⟨target, rfl, .inr ⟨rfl, own, passed, links⟩⟩

theorem Stops.passed (stops : Stops schemas names last error) (name : String) (next : Schema)
    (hop : Hop schemas name last next) : name ∈ names := by
  rcases stops.cases_hop with ⟨_, -, ⟨-, ends⟩ | ⟨-, other, passed, links⟩⟩
  · exact absurd hop (ends name next)
  · rwa [hop.1.unique links]

/-- The names that a chain passed are names of component schemas, so it can go on to them. -/
theorem Chain.exists_hop_again (chain : Chain schemas first names last) {name : String}
    (links : LinksTo name last) (passed : name ∈ names) : ∃ next, Hop schemas name last next := by
  obtain ⟨next, _, found, -⟩ := chain.exists_passed passed
  exact ⟨next, links, found⟩

theorem Stops.unique (chain : Chain schemas first names last) {other : ResolutionError}
    (stops : Stops schemas names last error) (stopsToo : Stops schemas names last other) :
    error = other := by
  obtain ⟨target, rfl, reason⟩ := stops.cases_hop
  obtain ⟨_, same, reasonToo⟩ := stopsToo.cases_hop
  obtain rfl := Schema.reference.inj same
  rcases reason with ⟨rfl, ends⟩ | ⟨rfl, name, passed, links⟩
  · rcases reasonToo with ⟨rfl, -⟩ | ⟨rfl, name, passed, links⟩
    · rfl
    · obtain ⟨next, hop⟩ := chain.exists_hop_again links passed
      exact absurd hop (ends name next)
  · rcases reasonToo with ⟨rfl, ends⟩ | ⟨rfl, -⟩
    · obtain ⟨next, hop⟩ := chain.exists_hop_again links passed
      exact absurd hop (ends name next)
    · rfl

/-- An outcome comes with the names that were passed. -/
theorem Resolves.exists_chain {outcome : Except ResolutionError Schema}
    (resolves : Resolves schemas first outcome) :
    ∃ names last, Chain schemas first names last ∧ names.Nodup ∧
      (∀ name next, Hop schemas name last next → name ∈ names) ∧
      (outcome = .ok last ∧ last.isReference = false ∨
        ∃ error, outcome = .error error ∧ Stops schemas names last error) := by
  cases resolves with
  | @ends names last chain inline =>
      have ends : ∀ name next, ¬Hop schemas name last next := not_hop_of_inline inline
      exact ⟨_, _, chain, chain.nodup_of_end ends, fun name next hop => absurd hop (ends name next),
        .inl ⟨rfl, inline⟩⟩
  | stops chain distinct stops =>
      exact ⟨_, _, chain, distinct, stops.passed, .inr ⟨_, rfl, stops⟩⟩

/-- A chain has one outcome. -/
theorem Resolves.unique {outcome other : Except ResolutionError Schema}
    (resolves : Resolves schemas first outcome) (resolvesToo : Resolves schemas first other) :
    outcome = other := by
  obtain ⟨names, last, chain, distinct, halts, reason⟩ := resolves.exists_chain
  obtain ⟨_, _, chainToo, distinctToo, haltsToo, reasonToo⟩ := resolvesToo.exists_chain
  obtain ⟨rfl, rfl⟩ := chain.unique chainToo distinct distinctToo halts haltsToo
  rcases reason with ⟨rfl, inline⟩ | ⟨error, rfl, stops⟩
  · rcases reasonToo with ⟨rfl, -⟩ | ⟨error, rfl, stops⟩
    · rfl
    · obtain ⟨target, rfl, -⟩ := stops.cases_hop
      contradiction
  · rcases reasonToo with ⟨rfl, inline⟩ | ⟨errorToo, rfl, stopsToo⟩
    · obtain ⟨target, rfl, -⟩ := stops.cases_hop
      contradiction
    · rw [stops.unique chain stopsToo]

/-! ## The search -/

theorem stops_of_target?_eq_none {target : Reference} (none : target? target.pointer = none) :
    Stops schemas names (.reference target) (.dangling target.pointer) := by
  by_cases exists_name : ∃ name, target.pointer = Pointer.toSchema name
  · obtain ⟨name, pointer⟩ := exists_name
    refine .nested pointer ?_
    by_contra plain
    rw [target?_eq_some_iff.mpr (.intro pointer plain)] at none
    contradiction
  · exact .outside fun name pointer => exists_name ⟨name, pointer⟩

/-- One turn of the search: it has arrived, or gives up, or hops to a schema it has not passed. -/
theorem follow_turn (schemas : Members Schema) (seen : List String) (schema : Schema) :
    schema.isReference = false ∨
      (∃ error, Stops schemas seen schema error ∧
        ∀ fuel, follow schemas fuel seen schema = .error error) ∨
      ∃ name next, name ∉ seen ∧ Hop schemas name schema next ∧
        ∀ fuel, follow schemas (fuel + 1) seen schema = follow schemas fuel (name :: seen) next := by
  cases schema with
  | reference target =>
      right
      cases named : target? target.pointer with
      | none =>
          refine .inl ⟨_, stops_of_target?_eq_none named, fun fuel => ?_⟩
          rw [follow, named]
      | some name =>
          have links := target?_eq_some_iff.mp named
          by_cases passed : name ∈ seen
          · refine .inl ⟨_, .again links passed, fun fuel => ?_⟩
            rw [follow, named]
            exact if_pos (List.contains_iff_mem.mpr passed)
          · have fresh : ¬seen.contains name = true := mt List.contains_iff_mem.mp passed
            cases found : Members.get? name schemas with
            | none =>
                refine .inl ⟨_, .missing links found, fun fuel => ?_⟩
                rw [follow, named]
                dsimp only
                rw [if_neg fresh, found]
                cases fuel <;> rfl
            | some next =>
                refine .inr ⟨name, next, passed, ⟨links, found⟩, fun fuel => ?_⟩
                rw [follow, named]
                dsimp only
                rw [if_neg fresh, found]
  | _ => exact .inl rfl

/-- Behind names that were passed once each, the search finds the outcome if it may go on for as
many hops as there are other component schemas. -/
theorem resolves_follow {fuel : Nat} {seen : List String} {schema : Schema}
    (chain : Chain schemas first seen schema) (distinct : seen.Nodup)
    (enough : schemas.length ≤ fuel + seen.length) :
    Resolves schemas first (follow schemas fuel seen schema) := by
  induction fuel generalizing seen schema with
  | zero =>
      rcases follow_turn schemas seen schema with
        inline | ⟨error, stops, gives⟩ | ⟨name, next, fresh, hop, -⟩
      · rw [follow_of_isReference inline]
        exact .ends chain inline
      · rw [gives]
        exact .stops chain distinct stops
      · have more := (chain.hop hop).length_le (List.nodup_cons.mpr ⟨fresh, distinct⟩)
        rw [List.length_cons] at more
        omega
  | succ fuel ih =>
      rcases follow_turn schemas seen schema with
        inline | ⟨error, stops, gives⟩ | ⟨name, next, fresh, hop, goes⟩
      · rw [follow_of_isReference inline]
        exact .ends chain inline
      · rw [gives]
        exact .stops chain distinct stops
      · rw [goes]
        refine ih (chain.hop hop) (List.nodup_cons.mpr ⟨fresh, distinct⟩) ?_
        rw [List.length_cons]
        omega

/-- More hops than there are component schemas are never needed. -/
theorem follow_eq_resolve {fuel : Nat} (enough : schemas.length ≤ fuel) (first : Schema) :
    follow schemas fuel [] first = resolve schemas first :=
  (resolves_follow .start List.nodup_nil enough).unique
    (resolves_follow .start List.nodup_nil (Nat.le_refl _))

theorem resolve_eq_iff {outcome : Except ResolutionError Schema} :
    resolve schemas first = outcome ↔ Resolves schemas first outcome := by
  have own : Resolves schemas first (resolve schemas first) :=
    resolves_follow .start List.nodup_nil (Nat.le_refl _)
  constructor
  · rintro rfl
    exact own
  · exact own.unique

/-- A chain that passes a name twice goes round for ever, so the search gives up. -/
theorem exists_cycle_of_twice (chain : Chain schemas first names last) (twice : ¬names.Nodup) :
    ∃ pointer, resolve schemas first = .error (.cycle pointer) := by
  have distinct_of_end {others : List String} {final : Schema}
      (whole : Chain schemas first others final)
      (ends : ∀ name next, ¬Hop schemas name final next) : names.Nodup := by
    obtain ⟨rest, -, rfl⟩ := whole.rest_of_end ends chain
    exact (whole.nodup_of_end ends).of_append_right
  cases outcome : resolve schemas first with
  | ok result =>
      cases resolve_eq_iff.mp outcome with
      | ends whole inline => exact absurd (distinct_of_end whole (not_hop_of_inline inline)) twice
  | error error =>
      cases resolve_eq_iff.mp outcome with
      | stops whole distinct stops =>
          obtain ⟨target, rfl, ⟨rfl, ends⟩ | ⟨rfl, -⟩⟩ := stops.cases_hop
          · exact absurd (distinct_of_end whole ends) twice
          · exact ⟨_, rfl⟩

/-- A search ends with the schema at the end of the chain if there is one. It fails if and only if
the chain gets to a reference that leads nowhere or back to a name on the way, and says which one
came first. It never takes more hops than there are component schemas. -/
theorem resolve_follows_chain (schemas : Members Schema) (first : Schema) :
    (∀ last, resolve schemas first = .ok last ↔
      last.isReference = false ∧ ∃ names, Chain schemas first names last) ∧
    ((∃ error, resolve schemas first = .error error) ↔
      ∃ names last error, Chain schemas first names last ∧ Stops schemas names last error) ∧
    (∀ error, resolve schemas first = .error error ↔
      ∃ names last, names.Nodup ∧ Chain schemas first names last ∧
        Stops schemas names last error) ∧
    ((∃ pointer, resolve schemas first = .error (.cycle pointer)) ↔
      ∃ names last, Chain schemas first names last ∧ ¬names.Nodup) ∧
    (∀ names last, Chain schemas first names last → names.Nodup →
      names.length ≤ schemas.length) ∧
    ∀ fuel, schemas.length ≤ fuel → follow schemas fuel [] first = resolve schemas first := by
  have arrives (last : Schema) : resolve schemas first = .ok last ↔
      last.isReference = false ∧ ∃ names, Chain schemas first names last := by
    rw [resolve_eq_iff]
    constructor
    · intro resolves
      cases resolves with
      | ends chain inline => exact ⟨inline, _, chain⟩
    · rintro ⟨inline, _, chain⟩
      exact .ends chain inline
  have fails (error : ResolutionError) : resolve schemas first = .error error ↔
      ∃ names last, names.Nodup ∧ Chain schemas first names last ∧
        Stops schemas names last error := by
    rw [resolve_eq_iff]
    constructor
    · intro resolves
      cases resolves with
      | stops chain distinct stops => exact ⟨_, _, distinct, chain, stops⟩
    · rintro ⟨_, _, distinct, chain, stops⟩
      exact .stops chain distinct stops
  refine ⟨arrives, ⟨?_, ?_⟩, fails, ⟨?_, ?_⟩, fun names last chain => chain.length_le,
    fun fuel enough => follow_eq_resolve enough first⟩
  · rintro ⟨error, failed⟩
    obtain ⟨names, last, -, chain, stops⟩ := (fails error).mp failed
    exact ⟨names, last, error, chain, stops⟩
  · rintro ⟨names, last, error, chain, stops⟩
    by_cases distinct : names.Nodup
    · exact ⟨error, (fails error).mpr ⟨names, last, distinct, chain, stops⟩⟩
    · obtain ⟨pointer, failed⟩ := exists_cycle_of_twice chain distinct
      exact ⟨_, failed⟩
  · rintro ⟨pointer, failed⟩
    obtain ⟨names, last, distinct, chain, stops⟩ := (fails _).mp failed
    obtain ⟨target, rfl, ⟨same, -⟩ | ⟨-, name, passed, links⟩⟩ := stops.cases_hop
    · contradiction
    · obtain ⟨next, hop⟩ := chain.exists_hop_again links passed
      exact ⟨name :: names, next, chain.hop hop, fun both => (List.nodup_cons.mp both).1 passed⟩
  · rintro ⟨names, last, chain, twice⟩
    exact exists_cycle_of_twice chain twice

/-- A component schema that leads to two others, which lead to each other. -/
def roundabout : Members Schema :=
  [("Way", referenceTo "In"), ("In", referenceTo "Out"), ("Out", referenceTo "In")]

theorem roundabout_chain :
    Chain roundabout (referenceTo "Way") ["In", "Out", "In", "Way"] (referenceTo "Out") := by
  have links (name : String) (plain : '/' ∉ name.toList) : LinksTo name (referenceTo name) :=
    .intro rfl plain
  have way : Chain roundabout (referenceTo "Way") ["Way"] (referenceTo "In") :=
    Chain.start.hop ⟨links "Way" (by decide), rfl⟩
  exact ((way.hop ⟨links "In" (by decide), rfl⟩).hop ⟨links "Out" (by decide), rfl⟩).hop
    ⟨links "In" (by decide), rfl⟩

theorem resolve_roundabout :
    ∃ pointer, resolve roundabout (referenceTo "Way") = .error (.cycle pointer) :=
  (resolve_follows_chain roundabout (referenceTo "Way")).2.2.2.1.mpr
    ⟨_, _, roundabout_chain, by decide⟩

end Schema

end SchemaLift
