import ObjectSelect.Proofs.AttributeColumns

/-!
# The tables of blocks

A block is over the tables that its query names, as they stand, followed by the other tables of the
entities that it reads. These come in the order in which the entities are visited, one selection
after the other and each entity before what is fetched with it, and each comes once
(`Query.sources_eq`). A nested query contributes nothing: its tables are in its own block.

That block may not be the one that was made for the nested query, but an earlier one that is the
same and that the select list has already. Blocks that are the same have the same tables and select
the same expressions (`QuerySpec.tables_and_exprs_of_beq`), so the tables of the blocks below do not
depend on which of them is there (`Query.HasSources.of_beq`).
-/

set_option autoImplicit false
set_option relaxedAutoImplicit false

namespace ObjectSelect

theorem QueryItem.tables_eq_map_graphs (item : QueryItem) :
    item.tables = item.graphs.map (·.table) := by
  cases item with
  | entity graph => exact graph.tables_eq_map_graphs
  | scalar | subquery => rfl

/-- The tables of a query, in terms of the entities that it reads. -/
theorem Query.sources_eq (query : Query) : query.sources = query.tables ++
    ((query.graphs.map (·.table)).filter (· ∉ query.tables)).eraseDups := by
  have htables : QueryItem.tables = fun item ↦ item.graphs.map (·.table) :=
    funext QueryItem.tables_eq_map_graphs
  rw [sources, graphs, List.map_flatMap, htables]

theorem Query.mem_sources_iff {query : Query} {table : Table} : table ∈ query.sources ↔
    table ∈ query.tables ∨ ∃ graph ∈ query.graphs, graph.table = table := by
  rw [sources_eq, List.mem_append, List.mem_eraseDups, List.mem_filter, List.mem_map]
  by_cases h : table ∈ query.tables <;> simp [h]

/-! ### Blocks in blocks -/

mutual

/-- A block is over the tables that its query names and then those of the entities that the query
reads in its own block, each once in the order in which they are visited. And the same holds of the
block that it selects for each nested query, at any depth. -/
def Query.HasSources : Query → QuerySpec → Prop
  | ⟨selections, tables⟩, block =>
    block.tables = tables ++
        (((Query.graphs ⟨selections, tables⟩).map (·.table)).filter (· ∉ tables)).eraseDups ∧
      QueryItem.AllHaveSources selections block.selections
  termination_by structural query => query

/-- The same of a selected thing, if it is a nested query, with the select list it is put in. -/
def QueryItem.HasSources : QueryItem → List Selection → Prop
  | .subquery query _, items =>
    ∃ item ∈ items, ∃ block, item.expr = .subquery block ∧ query.HasSources block
  | .scalar _ _ _, _ => True
  | .entity _, _ => True
  termination_by structural item => item

/-- The same of things selected one after the other. -/
def QueryItem.AllHaveSources : List QueryItem → List Selection → Prop
  | [], _ => True
  | item :: rest, items => item.HasSources items ∧ QueryItem.AllHaveSources rest items
  termination_by structural items => items

end

mutual

/-- Of blocks that are the same, one has the tables of the query if the other has. -/
theorem Query.hasSources_of_beq : ∀ (query : Query) {block other : QuerySpec},
    query.HasSources block → (block == other) = true → query.HasSources other
  | ⟨selections, tables⟩, block, other => by
    rw [Query.HasSources, Query.HasSources]
    rintro ⟨htables, hitems⟩ hsame
    obtain ⟨hsources, hexprs⟩ := QuerySpec.tables_and_exprs_of_beq hsame
    exact ⟨hsources ▸ htables, QueryItem.allHaveSources_of_exprs selections hitems hexprs⟩
  termination_by structural query => query

theorem QueryItem.hasSources_of_exprs : ∀ (item : QueryItem) {items others : List Selection},
    item.HasSources items →
    (∀ selected ∈ items, ∃ other ∈ others, (selected.expr == other.expr) = true) →
    item.HasSources others
  | .scalar _ _ _, _, _ => fun _ _ ↦ trivial
  | .entity _, _, _ => fun _ _ ↦ trivial
  | .subquery query _, items, others => by
    rintro ⟨selected, hmem, block, hblock, hquery⟩ hexprs
    obtain ⟨other, hother, hsame⟩ := hexprs selected hmem
    rw [hblock] at hsame
    obtain ⟨block', hblock', hsame'⟩ := (Expr.beq_subquery_iff _ _).mp (BEq.symm hsame)
    exact ⟨other, hother, block', hblock', query.hasSources_of_beq hquery (BEq.symm hsame')⟩
  termination_by structural item => item

theorem QueryItem.allHaveSources_of_exprs : ∀ (selected : List QueryItem)
    {items others : List Selection}, QueryItem.AllHaveSources selected items →
    (∀ item ∈ items, ∃ other ∈ others, (item.expr == other.expr) = true) →
    QueryItem.AllHaveSources selected others
  | [], _, _ => fun _ _ ↦ trivial
  | item :: rest, _, _ => fun ⟨hitem, hrest⟩ hexprs ↦
    ⟨item.hasSources_of_exprs hitem hexprs, QueryItem.allHaveSources_of_exprs rest hrest hexprs⟩
  termination_by structural selected => selected

end

/-- Each expression that a block is made for stands in its select list. -/
theorem QuerySpec.exists_selection_ofDemands {ds : List Demand} {d : Demand} (h : d ∈ ds)
    (tables : List Table) :
    ∃ item ∈ (ofDemands ds tables).selections, (item.expr == d.expr) = true := by
  have hany : ds.any (·.expr == d.expr) = true := List.any_eq_true.mpr ⟨d, h, BEq.rfl⟩
  rw [← any_eraseDupsBy Demand.expr, List.any_eq_true] at hany
  obtain ⟨first, hfirst, hexpr⟩ := hany
  obtain ⟨position, hposition⟩ := List.mem_iff_getElem?.mp hfirst
  exact ⟨first.selectionAt position,
    List.mem_map.mpr ⟨(first, position), List.mem_zipIdx_iff_getElem?.mpr hposition, rfl⟩, hexpr⟩

mutual

/-- The block of a query, and every block in it, has the tables of the query that it is made for. -/
theorem Query.hasSources_block (naming : Naming) : ∀ (query : Query) (seen : List Column),
    query.HasSources (query.block naming seen)
  | ⟨selections, tables⟩, seen => by
    rw [Query.HasSources]
    exact ⟨Query.sources_eq _, QueryItem.allHaveSources_of_demands naming selections seen
      fun d hd ↦ QuerySpec.exists_selection_ofDemands hd _⟩
  termination_by structural query => query

theorem QueryItem.hasSources_of_demands (naming : Naming) : ∀ (item : QueryItem)
    (seen : List Column) {items : List Selection},
    (∀ d ∈ item.demands naming seen, ∃ selected ∈ items, (selected.expr == d.expr) = true) →
    item.HasSources items
  | .scalar _ _ _, _, _ => fun _ ↦ trivial
  | .entity _, _, _ => fun _ ↦ trivial
  | .subquery query _, seen, items => by
    intro h
    obtain ⟨selected, hmem, hexpr⟩ := h _ List.mem_cons_self
    obtain ⟨block, hblock, hsame⟩ := (Expr.beq_subquery_iff _ _).mp hexpr
    exact ⟨selected, hmem, block, hblock,
      query.hasSources_of_beq (query.hasSources_block naming seen) (BEq.symm hsame)⟩
  termination_by structural item => item

theorem QueryItem.allHaveSources_of_demands (naming : Naming) : ∀ (selected : List QueryItem)
    (seen : List Column) {items : List Selection},
    (∀ d ∈ QueryItem.demandsAll naming seen selected, ∃ item ∈ items,
      (item.expr == d.expr) = true) →
    QueryItem.AllHaveSources selected items
  | [], _, _ => fun _ ↦ trivial
  | item :: rest, seen, _ => by
    intro h
    rw [QueryItem.demandsAll, List.forall_mem_append] at h
    exact ⟨item.hasSources_of_demands naming seen h.1,
      QueryItem.allHaveSources_of_demands naming rest _ h.2⟩
  termination_by structural selected => selected

end

/-! ### Lowered queries -/

/-- The tables of a lowered query. Assumes: a query is lowered. Its block is over the tables that
the query names, as they stand, and then over the other tables of the entities that it reads, each
once in the order in which the entities are visited. So a table is there only if the query names it
or one of these entities needs it. For each nested query a block stands in the select list, at the
position that is read for the nested query, and this block, with all blocks in it, has the tables of
the nested query in the same way. -/
theorem Lowered.tables_eq {config : Config} {query : Query} {lowered : Lowered}
    (hlower : lower config query = .ok lowered) :
    lowered.spec.tables = query.tables ++
        ((query.graphs.map (·.table)).filter (· ∉ query.tables)).eraseDups ∧
    (∀ table ∈ lowered.spec.tables,
      table ∈ query.tables ∨ ∃ graph ∈ query.graphs, graph.table = table) ∧
    ∀ (i : Nat) (nested : Query) (label : Option String),
      query.selections[i]? = some (.subquery nested label) →
      ∃ cell item block, lowered.readers[i]? = some (.basic cell label) ∧
        lowered.spec.selections[cell.position]? = some item ∧ item.expr = .subquery block ∧
        nested.HasSources block := by
  have hlowers := Query.lowersTo_of_lower hlower
  have htables : lowered.spec.tables = query.sources := by rw [hlowers.spec_eq]
  refine ⟨htables.trans query.sources_eq, fun table htable ↦ ?_, fun i nested label hitem ↦ ?_⟩
  · rw [htables] at htable
    exact Query.mem_sources_iff.mp htable
  · obtain ⟨selections, tables⟩ := query
    obtain ⟨before, own, reader, rest, hreader, ⟨position, rfl, rfl⟩, hrow, -⟩ :=
      QueryItem.exists_readBy hlowers.readers hlowers.forall₂_places hitem
    obtain ⟨⟨item, hplace, hexpr⟩, -⟩ := List.forall₂_cons.mp hrow
    obtain ⟨block, hblock, hsame⟩ := (Expr.beq_subquery_iff _ _).mp hexpr
    exact ⟨_, item, block, hreader, hplace, hblock,
      nested.hasSources_of_beq (nested.hasSources_block .first before) (BEq.symm hsame)⟩

/-- People with their homes over the table of the people, which is named twice, and nested two deep
the number of pets for an owner. -/
def Query.petsAtHome : Query :=
  ⟨[.entity .person,
    .subquery ⟨[.subquery ⟨[.scalar (.function "count" []) .int none], [⟨"pet", "q"⟩]⟩ none],
      [⟨"owner", "o"⟩]⟩ (some "pets"),
    .entity .person], [⟨"person", "p"⟩, ⟨"person", "p"⟩]⟩

/-- The home is the only table that is added, and the owner and the pets stay in their blocks. -/
theorem Lowered.tables_eq_petsAtHome : ∃ lowered, lower .flat Query.petsAtHome = .ok lowered ∧
    lowered.spec.tables = [⟨"person", "p"⟩, ⟨"person", "p"⟩, ⟨"address", "a"⟩] ∧
    ∃ cell item block, lowered.readers[1]? = some (.basic cell (some "pets")) ∧
      lowered.spec.selections[cell.position]? = some item ∧ item.expr = .subquery block ∧
      (Query.mk [.subquery ⟨[.scalar (.function "count" []) .int none], [⟨"pet", "q"⟩]⟩ none]
        [⟨"owner", "o"⟩]).HasSources block := by
  have hok : (lower .flat Query.petsAtHome).toBool = true := by decide +kernel
  cases hlower : lower .flat Query.petsAtHome with
  | error failure => simp [hlower, Except.toBool] at hok
  | ok lowered =>
    obtain ⟨htables, -, hnested⟩ := tables_eq hlower
    exact ⟨lowered, rfl, htables.trans (by decide), hnested 1 _ _ rfl⟩

end ObjectSelect
