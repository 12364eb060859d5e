import ObjectSelect.Proofs.Extension

/-!
# What sharing changes

The two settings of lowering are compared on the same query.

Sharing in nested queries does not change a query that is lowered without it
(`lower_shared_inside`). A nested query is part of a lowered query only if it has a single
selection. Everything that it asks for is then the same expression, which is one selection under
either setting (`Query.width_shared`), so a query without fault stays without fault
(`Query.fault?_shared`), and what a query is lowered to does not depend on the setting otherwise
(`Query.LowersTo.unique`).

Sharing in the query itself removes repeats from its select list and does nothing else
(`lower_shared_selects_once`). A block that shares within fetch trees gives every demand a selection
unless it repeats one of its own tree, so the demands with selections of their own still have the
first demand for each expression among them, and keeping only those gives the demands that have
selections in a block that shares throughout (`Ledger.eraseDupsBy_firsts`, `Ledger.firsts_shared`).
-/

set_option autoImplicit false
set_option relaxedAutoImplicit false

namespace ObjectSelect

/-! ### In nested queries -/

/-- A block with a single selection also has a single one if it shares throughout. -/
theorem Query.width_shared {naming : Naming} {seen : List Column} {query : Query}
    (h : query.width false naming seen = 1) : query.width true naming seen = 1 := by
  rw [← query.length_firsts_demands _ naming seen 0] at h ⊢
  obtain ⟨only, honly⟩ := List.length_eq_one_iff.mp h
  -- Among the demands with selections of their own there is only one, and it repeats nothing.
  rw [Ledger.firsts_shared, ← Ledger.eraseDupsBy_firsts false 0, honly]
  rfl

mutual

/-- There is no fault in a query whose nested queries share if there is none when they do not. -/
theorem Query.fault?_shared {naming : Naming} : ∀ (query : Query) {seen : List Column},
    query.fault? false naming seen = none → query.fault? true naming seen = none
  | ⟨selections, _⟩, seen => by
    intro h
    rw [Query.fault?] at h ⊢
    split_ifs at h ⊢
    exact QueryItem.faultAll?_shared selections h
  termination_by structural query => query

theorem QueryItem.fault?_shared {naming : Naming} : ∀ (item : QueryItem) {seen : List Column},
    item.fault? false naming seen = none → item.fault? true naming seen = none
  | .scalar _ _ _, _ => fun _ ↦ rfl
  | .entity _, _ => fun h ↦ h
  | .subquery query _, seen => by
    intro h
    rw [QueryItem.fault?, Option.or_eq_none_iff, arityFault?_eq_none_iff] at h ⊢
    exact ⟨query.fault?_shared h.1, Query.width_shared h.2⟩
  termination_by structural item => item

theorem QueryItem.faultAll?_shared {naming : Naming} : ∀ (items : List QueryItem)
    {seen : List Column}, QueryItem.faultAll? false naming seen items = none →
    QueryItem.faultAll? true naming seen items = none
  | [], _ => fun _ ↦ rfl
  | item :: rest, seen => by
    intro h
    rw [QueryItem.faultAll?, Option.or_eq_none_iff] at h ⊢
    exact ⟨item.fault?_shared h.1, QueryItem.faultAll?_shared rest h.2⟩
  termination_by structural items => items

end

/-- Sharing in nested queries leaves a query alone that is lowered without. Assumes: the query is
lowered when its nested queries do not share. It is lowered to the same when they share. -/
theorem lower_shared_inside {shares : Bool} {query : Query} {lowered : Lowered}
    (h : lower ⟨shares, false⟩ query = .ok lowered) : lower ⟨shares, true⟩ query = .ok lowered := by
  have hnone := (exists_lower_iff ⟨shares, false⟩ query).mp ⟨lowered, h⟩
  obtain ⟨lowered', h'⟩ := (exists_lower_iff ⟨shares, true⟩ query).mpr (query.fault?_shared hnone)
  have hlowers : query.LowersTo shares [] lowered := Query.lowersTo_of_lower h
  have hlowers' : query.LowersTo shares [] lowered' := Query.lowersTo_of_lower h'
  rw [h', hlowers'.unique hlowers]

theorem lower_shared_inside_people :
    ∃ lowered, lower ⟨true, false⟩ Query.people = .ok lowered ∧
      lower ⟨true, true⟩ Query.people = .ok lowered := by
  obtain ⟨lowered, h⟩ := Query.exists_lowered_people ⟨true, false⟩
  exact ⟨lowered, h, lower_shared_inside h⟩

/-- The number of people, asked for twice in a nested query. -/
def Query.countTwice : Query :=
  ⟨[.subquery ⟨[.scalar (.function "count" []) .int none, .scalar (.function "count" []) .int none],
    [⟨"person", "p"⟩]⟩ none], []⟩

/-- The other way round it fails: a nested query can have a single selection because it shares. -/
example : Query.countTwice.fault? false .first [] = some (.subqueryArity 1 2) ∧
    Query.countTwice.fault? true .first [] = none := by decide

/-! ### In the query itself -/

/-- What a selection selects, wherever it stands. -/
def Selection.content (item : Selection) : Expr × ValueType :=
  (item.expr, item.type)

/-- What a demand asks for, whoever asks. -/
def Demand.content (d : Demand) : Expr × ValueType :=
  (d.expr, d.type)

theorem Ledger.map_content_selections (ledger : Ledger) :
    ledger.selections.map Selection.content = ledger.firsts.map Demand.content := by
  rw [selections, ← map_fst_entries, List.map_map, List.map_map]
  rfl

/-- A block selects what another one selects, each expression once, where it comes first, with the
type that it has there, from the same tables. -/
structure QuerySpec.SelectsOnce (block repeating : QuerySpec) : Prop where
  contents : block.selections.map Selection.content =
    (repeating.selections.map Selection.content).eraseDupsBy
      fun later earlier ↦ earlier.1 == later.1
  distinct : block.selections.Pairwise fun earlier later ↦ (earlier.expr == later.expr) = false
  length_le : block.selections.length ≤ repeating.selections.length
  tables : block.tables = repeating.tables

/-- A block that has the contents of another one without the repeats selects what that one selects
once. -/
theorem QuerySpec.selectsOnce_of_contents {block repeating : QuerySpec}
    (hcontents : block.selections.map Selection.content =
      (repeating.selections.map Selection.content).eraseDupsBy
        fun later earlier ↦ earlier.1 == later.1)
    (htables : block.tables = repeating.tables) : block.SelectsOnce repeating where
  contents := hcontents
  distinct := by
    have hpairwise := pairwise_eraseDupsBy Prod.fst (repeating.selections.map Selection.content)
    rwa [← hcontents, List.pairwise_map] at hpairwise
  length_le := by
    have hlength := length_eraseDupsBy_le Prod.fst (repeating.selections.map Selection.content)
    rwa [← hcontents, List.length_map, List.length_map] at hlength
  tables := htables

/-- What is selected where a block shares throughout is what is selected where it shares within
fetch trees, without the repeats. -/
theorem Ledger.map_content_selections_shared (start : Nat) (ds : List Demand) :
    ((empty true start).noteAll ds).selections.map Selection.content =
      (((empty false start).noteAll ds).selections.map Selection.content).eraseDupsBy
        fun later earlier ↦ earlier.1 == later.1 := by
  rw [map_content_selections, map_content_selections, firsts_shared,
    ← eraseDupsBy_firsts false start]
  exact map_eraseDupsBy Prod.fst Demand.content _

/-- Sharing in the query itself removes repeats and does nothing else. Whatever nested queries do,
the query is refused with sharing just when it is refused without, and for the same reason. If it is
lowered under both settings, the block made with sharing selects what the other one selects, each
expression once. -/
theorem lower_shared_selects_once (sharesInside : Bool) (query : Query) :
    (∀ failure, lower ⟨true, sharesInside⟩ query = .error failure ↔
      lower ⟨false, sharesInside⟩ query = .error failure) ∧
    ∀ shared repeating, lower ⟨true, sharesInside⟩ query = .ok shared →
      lower ⟨false, sharesInside⟩ query = .ok repeating →
      shared.spec.SelectsOnce repeating.spec := by
  refine ⟨fun failure ↦ ?_, fun shared repeating hshared hrepeating ↦ ?_⟩
  · rw [lower_eq_error_iff, lower_eq_error_iff]
  · have hlowers : query.LowersTo true [] shared := Query.lowersTo_of_lower hshared
    have hlowers' : query.LowersTo false [] repeating := Query.lowersTo_of_lower hrepeating
    rw [hlowers.spec_eq, hlowers'.spec_eq]
    exact QuerySpec.selectsOnce_of_contents (Ledger.map_content_selections_shared _ _) rfl

/-- People are selected in three values with sharing. Without it the name, which is asked for again
outside the fetch tree, is selected twice. -/
theorem lower_shared_selects_once_people : ∃ shared repeating,
    lower ⟨true, true⟩ Query.people = .ok shared ∧
    lower ⟨false, true⟩ Query.people = .ok repeating ∧
    shared.spec.selections.length = 3 ∧ repeating.spec.selections.length = 4 ∧
    shared.spec.SelectsOnce repeating.spec := by
  obtain ⟨shared, hshared⟩ := Query.exists_lowered_people ⟨true, true⟩
  obtain ⟨repeating, hrepeating⟩ := Query.exists_lowered_people ⟨false, true⟩
  have hlowers : Query.people.LowersTo true [] shared := Query.lowersTo_of_lower hshared
  have hlowers' : Query.people.LowersTo false [] repeating := Query.lowersTo_of_lower hrepeating
  exact ⟨shared, repeating, hshared, hrepeating, hlowers.length_selections.trans (by decide),
    hlowers'.length_selections.trans (by decide),
    (lower_shared_selects_once true Query.people).2 shared repeating hshared hrepeating⟩

end ObjectSelect
