import ObjectSelect.Proofs.Ledger
import ObjectSelect.Query

/-!
# What a query asks for

The block of a query is determined by what the query asks for: the demands of its selections, in
order, and the tables it names. Both are read off the query here, without a stack. Only the
expression of a mapped column depends on what was asked for before, and a `Naming` says how:
`Naming.own` takes every column for itself, and `Naming.first` takes the first column that was asked
for under the same key, in the block or in the blocks around it.

`Query.block` is the block of a nested query: each expression that the query asks for once, in
order, over the tables of the query.
-/

set_option autoImplicit false
set_option relaxedAutoImplicit false

namespace ObjectSelect

/-- Which column stands for a column, given the columns asked for so far. -/
abbrev Naming := List Column → Column → Column

namespace Naming

/-- Every column stands for itself. -/
def own : Naming :=
  fun _ c ↦ c

/-- The first column with the same key stands for a column; without one, the column itself. -/
def first : Naming :=
  fun seen c ↦ (seen.find? fun earlier ↦ earlier.key == c.key).getD c

theorem first_append_cons (seen rest : List Column) (c : Column) :
    first (seen ++ c :: rest) c = first seen c := by
  rw [first, first, List.find?_append]
  cases seen.find? fun earlier ↦ earlier.key == c.key <;> simp

/-- Columns that come after a column do not stand for it. -/
theorem first_append_of_mem {seen : List Column} {c : Column} (h : c ∈ seen) (rest : List Column) :
    first (seen ++ rest) c = first seen c := by
  obtain ⟨before, after, rfl⟩ := List.append_of_mem h
  rw [List.append_assoc, List.cons_append, first_append_cons, first_append_cons]

theorem first_eq_self_iff {seen : List Column} {c : Column} (h : c ∈ seen) :
    first seen c = c ↔ (seen.find? fun earlier ↦ earlier.key == c.key) = some c := by
  rw [first]
  cases hfind : seen.find? fun earlier ↦ earlier.key == c.key with
  | none => simpa using List.find?_eq_none.mp hfind c h
  | some earlier => simp

end Naming

namespace EntityGraph

/-- The node at which an entity that a query selects is read. -/
def rootNode (graph : EntityGraph) : FetchNode :=
  .root (.root graph.entity graph.label)

mutual

/-- The columns that an entity read at a node maps, each with the node that asks for it. The
entity's own columns come before those of its fetches. -/
def columnsAt (node : FetchNode) : EntityGraph → List (FetchNode × Column)
  | ⟨_, _, table, attributes, fetches⟩ =>
    attributes.map (fun attr ↦ (node, attr.column table.correlation)) ++
      fetchedColumnsAt node fetches
  termination_by structural graph => graph

/-- The columns that the associations fetched at a node map. -/
def fetchedColumnsAt (node : FetchNode) : List (String × EntityGraph) → List (FetchNode × Column)
  | [] => []
  | (name, graph) :: rest => graph.columnsAt (node.fetch name) ++ fetchedColumnsAt node rest
  termination_by structural fetches => fetches

end

mutual

/-- What is fetched with an entity belongs to the fetch tree of the entity. -/
theorem rootPath_of_mem_columnsAt : ∀ (graph : EntityGraph) {node : FetchNode},
    ∀ site ∈ graph.columnsAt node, site.1.rootPath = node.rootPath
  | ⟨_, _, _, attributes, fetches⟩, node => by
    intro site hsite
    rw [columnsAt] at hsite
    rcases List.mem_append.mp hsite with hown | hfetched
    · obtain ⟨attr, -, rfl⟩ := List.mem_map.mp hown
      rfl
    · exact rootPath_of_mem_fetchedColumnsAt fetches site hfetched
  termination_by structural graph => graph

theorem rootPath_of_mem_fetchedColumnsAt : ∀ (fetches : List (String × EntityGraph))
    {node : FetchNode}, ∀ site ∈ fetchedColumnsAt node fetches, site.1.rootPath = node.rootPath
  | [], node => by simp [fetchedColumnsAt]
  | (name, graph) :: rest, node => by
    intro site hsite
    rw [fetchedColumnsAt] at hsite
    rcases List.mem_append.mp hsite with hgraph | hrest
    · have hroot := rootPath_of_mem_columnsAt graph site hgraph
      exact hroot
    · exact rootPath_of_mem_fetchedColumnsAt rest site hrest
  termination_by structural fetches => fetches

end

mutual

/-- The tables of an entity and its fetches, in the order in which they are visited. -/
def tables : EntityGraph → List Table
  | ⟨_, _, table, _, fetches⟩ => table :: fetchedTables fetches
  termination_by structural graph => graph

/-- The tables of fetched entities. -/
def fetchedTables : List (String × EntityGraph) → List Table
  | [] => []
  | (_, graph) :: rest => graph.tables ++ fetchedTables rest
  termination_by structural fetches => fetches

end

mutual

/-- An entity and all that is fetched with it, at any depth, each before its own fetches. -/
def graphs : EntityGraph → List EntityGraph
  | ⟨entity, label, table, attributes, fetches⟩ =>
    ⟨entity, label, table, attributes, fetches⟩ :: fetchedGraphs fetches
  termination_by structural graph => graph

/-- Fetched entities and all that is fetched with them. -/
def fetchedGraphs : List (String × EntityGraph) → List EntityGraph
  | [] => []
  | (_, graph) :: rest => graph.graphs ++ fetchedGraphs rest
  termination_by structural fetches => fetches

end

mutual

/-- The tables are visited as the graphs are that they belong to. -/
theorem tables_eq_map_graphs : ∀ graph : EntityGraph, graph.tables = graph.graphs.map (·.table)
  | ⟨_, _, _, _, fetches⟩ => by
    rw [tables, graphs, List.map_cons, fetchedTables_eq_map_fetchedGraphs fetches]
  termination_by structural graph => graph

theorem fetchedTables_eq_map_fetchedGraphs : ∀ fetches : List (String × EntityGraph),
    fetchedTables fetches = (fetchedGraphs fetches).map (·.table)
  | [] => rfl
  | (_, graph) :: rest => by
    rw [fetchedTables, fetchedGraphs, List.map_append, tables_eq_map_graphs graph,
      fetchedTables_eq_map_fetchedGraphs rest]
  termination_by structural fetches => fetches

end

/-- The columns of an entity that a query selects. -/
def columns (graph : EntityGraph) : List Column :=
  (graph.columnsAt graph.rootNode).map Prod.snd

end EntityGraph

/-- The demand for a column at a node. -/
def Column.demand (naming : Naming) (seen : List Column) (site : FetchNode × Column) : Demand :=
  ⟨.column (naming seen site.2), site.2.type, some site.1⟩

/-- The block that selects each expression demanded once, in the order of the demands. -/
def QuerySpec.ofDemands (ds : List Demand) (tables : List Table) : QuerySpec :=
  ⟨false,
    ((ds.eraseDupsBy fun d earlier ↦ earlier.expr == d.expr).zipIdx).map fun entry ↦
      entry.1.selectionAt entry.2,
    tables⟩

/-- The type of the first selection, which is the type of a nested query. -/
def QuerySpec.type (spec : QuerySpec) : ValueType :=
  (spec.selections.head?.map Selection.type).getD .null

namespace QueryItem

/-- The columns that a selected thing maps in the block itself. -/
def columns : QueryItem → List Column
  | entity graph => graph.columns
  | _ => []

/-- The tables that a selected thing needs in the block itself. -/
def tables : QueryItem → List Table
  | entity graph => graph.tables
  | _ => []

/-- The entities that a selected thing reads in the block itself. -/
def graphs : QueryItem → List EntityGraph
  | entity graph => graph.graphs
  | _ => []

end QueryItem

/-- The entities that a query reads in its own block, in the order in which they are visited. -/
def Query.graphs (query : Query) : List EntityGraph :=
  query.selections.flatMap QueryItem.graphs

/-- The tables of the block of a query: those that the query names, and then the other tables of the
entities it selects, each once. -/
def Query.sources (query : Query) : List Table :=
  query.tables ++
    ((query.selections.flatMap QueryItem.tables).filter (· ∉ query.tables)).eraseDups

mutual

/-- What a query asks for, after the columns in `seen`. -/
def Query.demands (naming : Naming) (seen : List Column) : Query → List Demand
  | ⟨selections, _⟩ => QueryItem.demandsAll naming seen selections
  termination_by structural query => query

/-- What a selected thing asks for. A nested query is one expression, the block of the query. -/
def QueryItem.demands (naming : Naming) (seen : List Column) : QueryItem → List Demand
  | .scalar e type _ => [⟨e, type, none⟩]
  | .entity graph =>
    (graph.columnsAt graph.rootNode).map (Column.demand naming (seen ++ graph.columns))
  | .subquery query _ =>
    let block := QuerySpec.ofDemands (query.demands naming seen) query.sources
    [⟨.subquery block, block.type, none⟩]
  termination_by structural item => item

/-- What selected things ask for, one after the other. -/
def QueryItem.demandsAll (naming : Naming) (seen : List Column) : List QueryItem → List Demand
  | [] => []
  | item :: rest =>
    item.demands naming seen ++ QueryItem.demandsAll naming (seen ++ item.columns) rest
  termination_by structural items => items

end

/-- The block of a query inside blocks that have asked for the columns in `seen`. -/
def Query.block (naming : Naming) (seen : List Column) (query : Query) : QuerySpec :=
  .ofDemands (query.demands naming seen) query.sources

/-- If one selection meets all demands of a block, the block is that selection, however the block
shares. -/
theorem QuerySpec.ofDemands_of_selections_eq {flat : Bool} {ds : List Demand} {only : Selection}
    (h : ((Ledger.empty flat 0).noteAll ds).selections = [only]) (tables : List Table) :
    ofDemands ds tables = ⟨false, [only], tables⟩ := by
  cases ds with
  | nil => simp at h
  | cons d rest =>
    have honly : d.selectionAt 0 = only := by
      have hprefix := Ledger.selections_prefix_noteAll ((Ledger.empty flat 0).note d) rest
      rw [← Ledger.noteAll_cons, h, Ledger.selections_note_of_not_held (Ledger.held?_empty ..),
        Ledger.answer_of_not_held (Ledger.held?_empty ..)] at hprefix
      simpa using hprefix
    have hsame : ∀ later ∈ rest, (d.expr == later.expr) = true := by
      intro later hlater
      obtain ⟨item, hitem, hexpr⟩ :=
        Ledger.exists_selection_of_mem (Ledger.start_empty flat 0) (List.mem_cons_of_mem d hlater)
      rw [h, List.mem_singleton] at hitem
      rwa [hitem, ← honly] at hexpr
    have hrest : rest.filter (fun later ↦ (d.expr == later.expr) = false) = [] := by
      rw [List.filter_eq_nil_iff]
      intro later hlater
      simp [hsame later hlater]
    rw [ofDemands, List.eraseDupsBy_cons, hrest, ← honly]
    rfl

end ObjectSelect
