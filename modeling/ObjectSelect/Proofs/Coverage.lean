import ObjectSelect.Proofs.Answers
import ObjectSelect.Proofs.Faults
import ObjectSelect.Proofs.Objects
import ObjectSelect.Proofs.ReadingFaults

/-!
# Readers cover the select list

The answers to the demands of a block leave no position of its select list out
(`Ledger.mem_positions_answers_iff`), and the readers are given the positions of all answers. A
reader drops one of these only where an entity has two attributes of one name. So if the attributes
of each entity have distinct names, the readers read the positions that they were given
(`EntityGraph.positions_of_readBy`), which are all positions of the select list and no others. A row
with a value for each selection is never too short, and a row that is shorter cannot be read
(`Lowered.positions_eq_select_list`).
-/

set_option autoImplicit false
set_option relaxedAutoImplicit false

namespace ObjectSelect

/-! ### The positions of an entity -/

theorem Attribute.map_position_cells {attributes : List Attribute} {positions : List Nat}
    (h : positions.length = attributes.length) :
    (cells attributes positions).map (fun entry ↦ entry.2.position) = positions := by
  induction attributes generalizing positions with
  | nil =>
    obtain rfl := List.eq_nil_of_length_eq_zero h
    rfl
  | cons attr rest ih =>
    cases positions with
    | nil => simp at h
    | cons position positions =>
      have hrest := ih (Nat.succ.inj h)
      rw [cells] at hrest ⊢
      rw [List.zipWith_cons_cons, List.map_cons, hrest]

/-- The attributes of an entity have distinct names. -/
def EntityGraph.NamesDistinct (graph : EntityGraph) : Prop :=
  (graph.attributes.map (·.name)).Nodup

namespace EntityGraph

mutual

/-- An entity whose attributes have distinct names reads all positions that it is given. -/
theorem positions_of_readBy : ∀ (graph : EntityGraph) {node : FetchNode} {positions : List Nat}
    {reader : EntityReader}, graph.ReadBy node positions reader →
    (∀ inner ∈ graph.graphs, inner.NamesDistinct) → reader.positions = positions
  | ⟨_, _, _, attributes, fetches⟩, node, _, ⟨path, cells, readers⟩ => by
    rw [ReadBy]
    rintro ⟨-, own, below, rfl, hown, -, rfl, hbelow⟩ hnames
    rw [graphs, List.forall_mem_cons] at hnames
    obtain ⟨hnodup, hfetched⟩ := hnames
    have hkeys : ((Attribute.cells attributes own).map Prod.fst).Nodup := by
      rw [Attribute.map_fst_cells hown]
      exact hnodup
    rw [EntityReader.positions, Assoc.putAll_nil_of_nodup hkeys, Attribute.map_position_cells hown,
      fetchPositions_of_readBy fetches hbelow hfetched]
  termination_by structural graph => graph

theorem fetchPositions_of_readBy : ∀ (fetches : List (String × EntityGraph)) {node : FetchNode}
    {positions : List Nat} {readers : List (String × EntityReader)},
    FetchesReadBy node fetches positions readers →
    (∀ inner ∈ fetchedGraphs fetches, inner.NamesDistinct) →
    EntityReader.fetchPositions readers = positions
  | [], node, _, _ => by
    rw [FetchesReadBy]
    rintro ⟨rfl, rfl⟩ -
    rfl
  | (name, graph) :: rest, node, _, _ => by
    rw [FetchesReadBy]
    rintro ⟨own, below, reader, others, rfl, rfl, hown, hbelow⟩ hnames
    rw [fetchedGraphs, List.forall_mem_append] at hnames
    rw [EntityReader.fetchPositions, positions_of_readBy graph hown hnames.1,
      fetchPositions_of_readBy rest hbelow hnames.2]
  termination_by structural fetches => fetches

end

end EntityGraph

namespace QueryItem

theorem positions_of_readBy {seen : List Column} {item : QueryItem} {positions : List Nat}
    {reader : Reader} (h : item.ReadBy seen positions reader)
    (hnames : ∀ graph ∈ item.graphs, graph.NamesDistinct) : reader.positions = positions := by
  cases item with
  | scalar e type label =>
    obtain ⟨position, rfl, rfl⟩ := h
    rfl
  | entity graph =>
    obtain ⟨reader, rfl, hreader⟩ := h
    exact graph.positions_of_readBy hreader hnames
  | subquery query label =>
    obtain ⟨position, rfl, rfl⟩ := h
    rfl

theorem positions_of_allReadBy {seen : List Column} {items : List QueryItem}
    {positions : List Nat} {readers : List Reader} (h : AllReadBy seen items positions readers)
    (hnames : ∀ graph ∈ items.flatMap graphs, graph.NamesDistinct) :
    readers.flatMap Reader.positions = positions := by
  induction items generalizing seen positions readers with
  | nil =>
    obtain ⟨rfl, rfl⟩ := h
    rfl
  | cons item rest ih =>
    obtain ⟨own, below, reader, others, rfl, rfl, hown, hbelow⟩ := h
    rw [List.flatMap_cons, List.forall_mem_append] at hnames
    rw [List.flatMap_cons, positions_of_readBy hown hnames.1, ih hbelow hnames.2]

/-! ### A query selects something -/

/-- What is selected without a fault asks for something. -/
theorem demands_ne_nil {shares : Bool} {naming : Naming} {seen : List Column} {item : QueryItem}
    (h : item.fault? shares naming seen = none) : item.demands naming seen ≠ [] := by
  cases item with
  | scalar e type label => simp [demands]
  | entity graph =>
    obtain ⟨entity, label, table, attributes, fetches⟩ := graph
    have hattributes : attributes ≠ [] := by
      rintro rfl
      simp [fault?, EntityGraph.fault?] at h
    simp [demands, EntityGraph.columnsAt, hattributes]
  | subquery query label => simp [demands]

end QueryItem

theorem Query.demands_ne_nil {shares : Bool} {naming : Naming} {seen : List Column} {query : Query}
    (h : query.fault? shares naming seen = none) : query.demands naming seen ≠ [] := by
  obtain ⟨selections, tables⟩ := query
  cases selections with
  | nil => simp [fault?] at h
  | cons item rest =>
    have hitem : item.fault? shares naming seen = none := by
      simp only [fault?, QueryItem.faultAll?, Option.or_eq_none_iff, List.isEmpty_cons,
        Bool.false_eq_true, if_false] at h
      exact h.1
    rw [demands, QueryItem.demandsAll]
    exact List.append_ne_nil_of_left_ne_nil (QueryItem.demands_ne_nil hitem) _

/-! ### The select list -/

/-- Readers of a block whose entities have attributes of distinct names read the positions of its
select list. -/
theorem Query.LowersTo.mem_positions_iff {flat : Bool} {seen : List Column} {query : Query}
    {lowered : Lowered} (h : query.LowersTo flat seen lowered)
    (hnames : ∀ graph ∈ query.graphs, graph.NamesDistinct) (position : Nat) :
    position ∈ lowered.readers.flatMap Reader.positions ↔ position < lowered.spec.count := by
  rw [QueryItem.positions_of_allReadBy h.readers hnames, Ledger.mem_positions_answers_iff,
    QuerySpec.count, h.spec_eq]

namespace Lowered

variable {lowered : Lowered} {row : Row}

/-- A row that is too short for a reading ends before a position that is read. -/
theorem exists_position_of_rowTooShort {position length : Nat}
    (h : lowered.readRow row = .error (.rowTooShort position length)) :
    position ∈ lowered.readers.flatMap Reader.positions ∧ row.length ≤ position := by
  obtain ⟨cell, hcell, hfault⟩ :=
    List.exists_of_findSome?_eq_some (((lowered.stops_readRow row).error_iff _).mp h)
  rw [Reader.flatMap_positions]
  cases (cell.fault?_eq_some_iff row _).mp hfault with
  | tooShort hlength => exact ⟨List.mem_map_of_mem hcell, hlength⟩

/-- A row that ends before a position that is read is refused. -/
theorem exists_error_of_position {position : Nat}
    (h : position ∈ lowered.readers.flatMap Reader.positions) (hrow : row.length ≤ position) :
    ∃ fault, lowered.readRow row = .error fault := by
  rw [Reader.flatMap_positions] at h
  obtain ⟨cell, hcell, rfl⟩ := List.mem_map.mp h
  cases hread : lowered.readRow row with
  | error fault => exact ⟨fault, rfl⟩
  | ok values =>
    obtain ⟨value, hvalue⟩ := (lowered.exists_readRow_iff row).mp ⟨values, hread⟩ cell hcell
    obtain ⟨held, hheld, -⟩ := (cell.exists_read_iff row).mp ⟨value, hvalue⟩
    rw [List.getElem?_eq_none hrow] at hheld
    cases hheld

/-- Readers read the whole select list and nothing else. Assumes: a query is lowered, and in each of
the entities that it selects, the fetched ones included, the attributes have distinct names. There
is something in the select list, and the positions read are all of its positions. So a row that has
a value for each selection is never too short, and a row that has fewer is always refused. -/
theorem positions_eq_select_list {config : Config} {query : Query}
    (hlower : lower config query = .ok lowered)
    (hnames : ∀ graph ∈ query.graphs, graph.NamesDistinct) :
    0 < lowered.spec.count ∧
    (∀ position, position ∈ lowered.readers.flatMap Reader.positions ↔
      position < lowered.spec.count) ∧
    ∀ row : Row,
      (lowered.spec.count ≤ row.length →
        ∀ position length, lowered.readRow row ≠ .error (.rowTooShort position length)) ∧
      (row.length < lowered.spec.count → ∃ fault, lowered.readRow row = .error fault) := by
  have hlowers := Query.lowersTo_of_lower hlower
  have hpositions := hlowers.mem_positions_iff hnames
  refine ⟨?_, hpositions, fun row ↦ ⟨fun hrow position length hread ↦ ?_, fun hrow ↦ ?_⟩⟩
  · have hdemands := Query.demands_ne_nil ((exists_lower_iff config query).mp ⟨lowered, hlower⟩)
    obtain ⟨d, hd⟩ := List.exists_mem_of_ne_nil _ hdemands
    obtain ⟨item, hitem, -⟩ :=
      Ledger.exists_selection_of_mem (Ledger.start_empty config.shareSelections 0) hd
    rw [QuerySpec.count, hlowers.spec_eq]
    exact List.length_pos_of_mem hitem
  · obtain ⟨hmem, hle⟩ := exists_position_of_rowTooShort hread
    exact absurd ((hpositions position).mp hmem) (Nat.not_lt.mpr (Nat.le_trans hrow hle))
  · exact exists_error_of_position ((hpositions row.length).mpr hrow) (Nat.le_refl _)

/-- People are read at all positions of their select list. -/
theorem positions_eq_select_list_people : ∃ lowered, lower .flat Query.people = .ok lowered ∧
    0 < lowered.spec.count ∧
    (∀ position, position ∈ lowered.readers.flatMap Reader.positions ↔
      position < lowered.spec.count) ∧
    ∀ row : Row,
      (lowered.spec.count ≤ row.length →
        ∀ position length, lowered.readRow row ≠ .error (.rowTooShort position length)) ∧
      (row.length < lowered.spec.count → ∃ fault, lowered.readRow row = .error fault) := by
  obtain ⟨lowered, hlower⟩ := Query.exists_lowered_people .flat
  have hnames : ∀ graph ∈ Query.people.graphs, graph.NamesDistinct := by
    intro graph hgraph
    have hcases : graph = .person ∨ graph = .home := by
      simpa [Query.people, Query.graphs, QueryItem.graphs, EntityGraph.person, EntityGraph.home,
        EntityGraph.graphs, EntityGraph.fetchedGraphs] using hgraph
    rcases hcases with rfl | rfl <;> exact List.nodup_singleton _
  exact ⟨lowered, hlower, positions_eq_select_list hlower hnames⟩

/-- Of two attributes of one name the first is selected, and no reader reads it. -/
example : (lower .flat ⟨[.entity ⟨"Person", none, ⟨"person", "p"⟩,
    [⟨"name", "name", .string, false⟩, ⟨"name", "nickname", .string, false⟩], []⟩],
    []⟩).toOption.map
      (fun lowered ↦ (lowered.spec.count, lowered.readers.flatMap Reader.positions)) =
        some (2, [1]) := by
  decide +kernel

end Lowered

end ObjectSelect
