import ObjectSelect.Proofs.Reading

/-!
# The columns that attributes read

A block remembers the column of an attribute under the table's correlation name and the column's
text, and forgets whether the text is a formula and of which type it is. So an attribute reads its
own column just when that column is the first of its key among those that the entities of the query
map. A formula whose text is the name of a column mapped before it reads that column instead.

An attribute is reached from the query in three steps, with one lemma each: to the reader of a
selected entity (`QueryItem.exists_readBy`), from there along the names of associations
(`EntityGraph.FetchedAt.exists_readBy`), and to the cell of the last attribute of a name
(`Attribute.exists_cell`). The lemmas carry along an arbitrary relation between what is asked for
and positions.
-/

set_option autoImplicit false
set_option relaxedAutoImplicit false

namespace ObjectSelect

namespace EntityGraph

/-- A graph that is fetched through associations of the given names, one below the other. -/
inductive FetchedAt : EntityGraph → List String → EntityGraph → Prop
  | here (graph : EntityGraph) : FetchedAt graph [] graph
  | under {graph child fetched : EntityGraph} {name : String} {names : List String}
    (hchild : (name, child) ∈ graph.fetches) (hfetched : FetchedAt child names fetched) :
    FetchedAt graph (name :: names) fetched

end EntityGraph

/-- The reader of what is fetched through associations of the given names. -/
def EntityReader.at? : List String → EntityReader → Option EntityReader
  | [], reader => some reader
  | name :: names, reader => (reader.fetches.lookup name).bind (at? names)

/-- The columns that the entities of a query map in its own block, in the order in which lowering
comes to them. -/
def Query.columns (query : Query) : List Column :=
  query.selections.flatMap QueryItem.columns

/-! ### The last attribute of a name -/

/-- The last attribute of a name is shown. -/
theorem Attribute.mem_shown {attributes pre post : List Attribute} {attr : Attribute}
    (hattr : attributes = pre ++ attr :: post) (hlast : attr.name ∉ post.map (·.name)) :
    attr ∈ shown attributes := by
  have hpost : post.reverse.find? (fun other ↦ other.name == attr.name) = none := by
    rw [List.find?_eq_none]
    intro other hother hname
    exact hlast (List.mem_map.mpr ⟨other, List.mem_reverse.mp hother, by simpa using hname⟩)
  refine List.mem_filterMap.mpr ⟨attr.name, ?_, ?_⟩
  · rw [List.mem_eraseDups, hattr]
    exact List.mem_map_of_mem (by simp)
  · rw [hattr, List.reverse_append, List.reverse_cons, List.append_assoc, List.find?_append, hpost]
    simp

/-- The last attribute of a name is in the cell that is found under the name. -/
theorem Attribute.exists_cell {r : Attribute → Nat → Prop} {attributes pre post : List Attribute}
    {attr : Attribute} {positions : List Nat} (h : List.Forall₂ r attributes positions)
    (hattr : attributes = pre ++ attr :: post) (hlast : attr.name ∉ post.map (·.name)) :
    ∃ cell, (Assoc.putAll [] (cells attributes positions)).lookup attr.name = some cell ∧
      r attr cell.position := by
  obtain ⟨i, hi, hget⟩ := List.getElem_of_mem (mem_shown hattr hlast)
  have hcells := forall₂_cells h
  have hi' := hcells.length_eq ▸ hi
  obtain ⟨hname, -, hplace⟩ := hcells.get hi hi'
  simp only [List.get_eq_getElem, hget] at hname hplace
  refine ⟨_, Assoc.lookup_eq_some_of_mem (Assoc.nodup_keys_putAll_nil _) ?_, hplace⟩
  rw [hname]
  exact List.getElem_mem hi'

/-! ### From a query to an attribute -/

section

variable {r : Demand → Nat → Prop}

/-- The reader of a selected thing reads the positions that go with its demands. -/
theorem QueryItem.exists_readBy {seen : List Column} {items : List QueryItem} {positions : List Nat}
    {readers : List Reader} (h : AllReadBy seen items positions readers)
    (hrow : List.Forall₂ r (demandsAll .first seen items) positions) {i : Nat} {item : QueryItem}
    (hitem : items[i]? = some item) :
    ∃ before own reader rest, readers[i]? = some reader ∧ item.ReadBy before own reader ∧
      List.Forall₂ r (item.demands .first before) own ∧
      seen ++ items.flatMap QueryItem.columns = before ++ item.columns ++ rest := by
  induction items generalizing seen positions readers i with
  | nil => simp at hitem
  | cons first others ih =>
    obtain ⟨own, below, reader, readers, rfl, rfl, hown, hbelow⟩ := h
    obtain ⟨hfirst, hothers⟩ := forall₂_append_of_length_eq (length_of_readBy hown) hrow
    cases i with
    | zero =>
      obtain rfl : first = item := by simpa using hitem
      exact ⟨seen, own, reader, others.flatMap QueryItem.columns, rfl, hown, hfirst, by simp⟩
    | succ i =>
      obtain ⟨before, own', reader', rest, hreader, hread, hrow', hcolumns⟩ :=
        ih hbelow hothers hitem
      exact ⟨before, own', reader', rest, hreader, hread, hrow', by simpa using hcolumns⟩

end

section

variable {r : FetchNode × Column → Nat → Prop}

/-- Among fetched readers there is one for each fetched graph, found by the name of its
association. -/
theorem EntityGraph.exists_readBy_of_mem {node : FetchNode}
    {fetches : List (String × EntityGraph)} {positions : List Nat}
    {readers : List (String × EntityReader)} (h : FetchesReadBy node fetches positions readers)
    (hnodup : (fetches.map Prod.fst).Nodup)
    (hrow : List.Forall₂ r (fetchedColumnsAt node fetches) positions) {name : String}
    {child : EntityGraph} (hchild : (name, child) ∈ fetches) :
    ∃ own reader, readers.lookup name = some reader ∧
      child.ReadBy (node.fetch name) own reader ∧
      List.Forall₂ r (child.columnsAt (node.fetch name)) own := by
  induction fetches generalizing positions readers with
  | nil => cases hchild
  | cons entry rest ih =>
    obtain ⟨first, graph⟩ := entry
    rw [FetchesReadBy] at h
    obtain ⟨own, below, reader, others, rfl, rfl, hown, hbelow⟩ := h
    rw [fetchedColumnsAt] at hrow
    obtain ⟨hgraph, hrest⟩ := forall₂_append_of_length_eq (length_of_readBy graph hown) hrow
    rw [List.map_cons, List.nodup_cons] at hnodup
    rcases List.mem_cons.mp hchild with heq | hmem
    · obtain ⟨rfl, rfl⟩ := Prod.mk.inj heq
      exact ⟨own, reader, List.lookup_cons_self, hown, hgraph⟩
    · obtain ⟨own', reader', hlookup, hread, hrow'⟩ := ih hbelow hnodup.2 hrest hmem
      have hne : (name == first) = false := by
        rw [beq_eq_false_iff_ne]
        rintro rfl
        exact hnodup.1 (List.mem_map.mpr ⟨_, hmem, rfl⟩)
      exact ⟨own', reader', by rw [List.lookup_cons, hne]; exact hlookup, hread, hrow'⟩

/-- The reader of an entity has a reader for everything fetched below it. -/
theorem EntityGraph.FetchedAt.exists_readBy {graph fetched : EntityGraph} {names : List String}
    (h : graph.FetchedAt names fetched) {node : FetchNode} {positions : List Nat}
    {reader : EntityReader} (hread : graph.ReadBy node positions reader)
    (hrow : List.Forall₂ r (graph.columnsAt node) positions) :
    ∃ node own below, reader.at? names = some below ∧ fetched.ReadBy node own below ∧
      List.Forall₂ r (fetched.columnsAt node) own := by
  induction h generalizing node positions reader with
  | here graph => exact ⟨node, positions, reader, rfl, hread, hrow⟩
  | @under graph child fetched name names hchild _ ih =>
    obtain ⟨entity, label, table, attributes, fetches⟩ := graph
    rw [ReadBy] at hread
    obtain ⟨hnodup, own, below, rfl, hown, -, -, hbelow⟩ := hread
    rw [columnsAt] at hrow
    obtain ⟨-, hfetches⟩ := forall₂_append_of_length_eq (by rw [List.length_map, hown]) hrow
    obtain ⟨own', reader', hlookup, hread, hrow'⟩ :=
      exists_readBy_of_mem hbelow hnodup hfetches hchild
    obtain ⟨node', own'', reader'', hat, hfetched⟩ := ih hread hrow'
    exact ⟨node', own'', reader'', by rw [EntityReader.at?, hlookup]; exact hat, hfetched⟩

/-- The last attribute of a name, in what is fetched below an entity, is in a cell that is found by
names alone. -/
theorem EntityGraph.FetchedAt.exists_cell {graph fetched : EntityGraph} {names : List String}
    (h : graph.FetchedAt names fetched) {node : FetchNode} {positions : List Nat}
    {reader : EntityReader} (hread : graph.ReadBy node positions reader)
    (hrow : List.Forall₂ r (graph.columnsAt node) positions) {pre post : List Attribute}
    {attr : Attribute} (hattr : fetched.attributes = pre ++ attr :: post)
    (hlast : attr.name ∉ post.map (·.name)) :
    ∃ below cell node', reader.at? names = some below ∧
      below.attributes.lookup attr.name = some cell ∧
      r (node', attr.column fetched.table.correlation) cell.position := by
  obtain ⟨node', own, below, hat, hfetched, hcolumns⟩ := h.exists_readBy hread hrow
  obtain ⟨entity, label, table, attributes, fetches⟩ := fetched
  rw [ReadBy] at hfetched
  obtain ⟨-, own, others, rfl, hown, -, hcells, -⟩ := hfetched
  rw [columnsAt] at hcolumns
  obtain ⟨hattributes, -⟩ := forall₂_append_of_length_eq (by rw [List.length_map, hown]) hcolumns
  rw [List.forall₂_map_left_iff] at hattributes
  obtain ⟨cell, hcell, hplace⟩ := Attribute.exists_cell hattributes hattr hlast
  exact ⟨below, cell, node', hat, by rw [hcells]; exact hcell, hplace⟩

end

namespace Query

/-- When an attribute reads its own column. Assumes: a query is lowered, an entity is selected in
it, a graph is fetched with the entity at any depth or is the entity itself, and an attribute is the
last one of its name in that graph. Then the readers hold a cell for the attribute, which is the
place of a selection. The selection has the first column that the entities of the query map under
the key of the attribute's column, so it has the attribute's own column just when that one is the
first of its key. -/
theorem attribute_reads_own_iff {config : Config} {query : Query} {lowered : Lowered}
    (hlower : lower config query = .ok lowered) {i : Nat} {graph : EntityGraph}
    (hitem : query.selections[i]? = some (.entity graph)) {names : List String}
    {fetched : EntityGraph} (hfetched : graph.FetchedAt names fetched) {pre post : List Attribute}
    {attr : Attribute} (hattr : fetched.attributes = pre ++ attr :: post)
    (hlast : attr.name ∉ post.map (·.name)) :
    let own := attr.column fetched.table.correlation
    ∃ reader below cell item, lowered.readers[i]? = some (.entity reader) ∧
      reader.at? names = some below ∧ below.attributes.lookup attr.name = some cell ∧
      lowered.spec.selections[cell.position]? = some item ∧
      item.expr = .column (Naming.first query.columns own) ∧
      ((item.expr == .column own) = true ↔
        query.columns.find? (fun c ↦ c.key == own.key) = some own) := by
  intro own
  have hlowers := lowersTo_of_lower hlower
  have hplaces := hlowers.forall₂_places
  obtain ⟨selections, tables⟩ := query
  obtain ⟨before, positions, reader, rest, hreader, ⟨entityReader, rfl, hread⟩, hrow, hcolumns⟩ :=
    QueryItem.exists_readBy hlowers.readers hplaces hitem
  rw [QueryItem.demands, List.forall₂_map_left_iff] at hrow
  obtain ⟨below, cell, node, hat, hcell, hmem, item, hplace, hexpr⟩ :=
    hfetched.exists_cell hread ((List.forall₂_and_left _ _).mpr ⟨fun site hsite ↦ hsite, hrow⟩)
      hattr hlast
  have hseen : columns ⟨selections, tables⟩ = before ++ graph.columns ++ rest := hcolumns
  have hown : own ∈ before ++ graph.columns :=
    List.mem_append_right before (List.mem_map_of_mem hmem)
  have hmapped : own ∈ columns ⟨selections, tables⟩ := hseen ▸ List.mem_append_left rest hown
  -- The columns of later entities come after the attribute's own, so they do not stand for it.
  have hfirst : item.expr = .column (Naming.first (columns ⟨selections, tables⟩) own) := by
    rw [hseen, Naming.first_append_of_mem hown]
    exact (Expr.beq_column_iff _ _).mp hexpr
  refine ⟨entityReader, below, cell, item, hreader, hat, hcell, hplace, hfirst, ?_⟩
  rw [Expr.beq_column_iff, hfirst, ← Naming.first_eq_self_iff hmapped, Expr.column.injEq]

theorem city_reads_own : ∃ lowered reader below cell item, lower .flat people = .ok lowered ∧
    lowered.readers[0]? = some (.entity reader) ∧ reader.at? ["home"] = some below ∧
    below.attributes.lookup "city" = some cell ∧
    lowered.spec.selections[cell.position]? = some item ∧
    (item.expr == .column ⟨"a", "lower(city)", true, .string⟩) = true := by
  obtain ⟨lowered, hlower⟩ := exists_lowered_people .flat
  have hperson : people.selections[0]? = some (.entity .person) := rfl
  have hhome : EntityGraph.person.FetchedAt ["home"] .home := .under List.mem_cons_self (.here _)
  have hcity : EntityGraph.home.attributes = [] ++ ⟨"city", "lower(city)", .string, true⟩ :: [] :=
    rfl
  obtain ⟨reader, below, cell, item, hreader, hbelow, hcell, hitem, -, hown⟩ :=
    attribute_reads_own_iff hlower hperson hhome hcity List.not_mem_nil
  exact ⟨lowered, reader, below, cell, item, hlower, hreader, hbelow, hcell, hitem,
    hown.mpr (by decide)⟩

/-- A person with a column and a formula of the same text. -/
def columnAndFormula : Query :=
  ⟨[.entity ⟨"Person", none, ⟨"person", "p1_0"⟩,
      [⟨"a", "name", .string, false⟩, ⟨"b", "name", .string, true⟩], []⟩], []⟩

/-- A formula of the text of a column that comes before it reads the column. -/
theorem formula_reads_column : ∃ lowered reader cell item,
    lower .flat columnAndFormula = .ok lowered ∧ lowered.readers[0]? = some (.entity reader) ∧
    reader.attributes.lookup "b" = some cell ∧
    lowered.spec.selections[cell.position]? = some item ∧
    (item.expr == .column ⟨"p1_0", "name", true, .string⟩) = false ∧
    (item.expr == .column ⟨"p1_0", "name", false, .string⟩) = true := by
  refine ⟨⟨⟨false, [⟨0, 1, .column ⟨"p1_0", "name", false, .string⟩, .string⟩],
      [⟨"person", "p1_0"⟩]⟩, [.entity ⟨.root "Person" none,
        [("a", ⟨0, .string⟩), ("b", ⟨0, .string⟩)], []⟩]⟩, _, _, _, ?_, rfl, rfl, rfl, ?_, ?_⟩
  · rfl
  · decide
  · decide

end Query

end ObjectSelect
