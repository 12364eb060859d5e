import ObjectSelect.Proofs.Reading

/-!
# The cells of readers

A reader reads a row cell by cell and gathers the values under names. `Members` relates named things
to the members that they give, and `EntityReader.read_eq_ok_iff` says in terms of it when an object
is read and which one. So a row can be read just when each cell can (`Lowered.exists_readRow_iff`),
whatever the names are.

The cells of a lowered query are not all that it asks for: of several attributes of one name an
entity shows the last. `QueryItem.shownDemands` is what is asked for and shown, and
`QueryItem.forall₂_cells` finds it in the cells, one after the other.
-/

set_option autoImplicit false
set_option relaxedAutoImplicit false

namespace ObjectSelect

/-! ### Reading that succeeds -/

private theorem bind_eq_ok_iff {ε α β : Type} {a? : Except ε α} {next : α → Except ε β} {b : β} :
    (a? >>= next) = .ok b ↔ ∃ a, a? = .ok a ∧ next a = .ok b := by
  cases a? with
  | error e => simp [bind, Except.bind]
  | ok a => simp [bind, Except.bind]

/-- A list has a related one just when each of its elements has a related element. -/
theorem exists_forall₂_iff {α β : Type} {r : α → β → Prop} {items : List α} :
    (∃ others, List.Forall₂ r items others) ↔ ∀ item ∈ items, ∃ other, r item other := by
  induction items with
  | nil => simp
  | cons item rest ih =>
    rw [List.forall_mem_cons, ← ih]
    constructor
    · rintro ⟨_, h⟩
      obtain ⟨other, others, hitem, hrest, rfl⟩ := List.forall₂_cons_left_iff.mp h
      exact ⟨⟨other, hitem⟩, others, hrest⟩
    · rintro ⟨⟨other, hitem⟩, others, hrest⟩
      exact ⟨other :: others, .cons hitem hrest⟩

theorem mapM_eq_ok_iff {ε α β : Type} {f : α → Except ε β} {items : List α} {results : List β} :
    items.mapM f = .ok results ↔ List.Forall₂ (fun item b ↦ f item = .ok b) items results := by
  induction items generalizing results with
  | nil =>
    rw [List.mapM_nil, List.forall₂_nil_left_iff]
    exact ⟨fun h ↦ (Except.ok.inj h).symm, fun h ↦ h ▸ rfl⟩
  | cons item rest ih =>
    simp only [List.mapM_cons, bind_eq_ok_iff, ih, List.forall₂_cons_left_iff]
    constructor
    · rintro ⟨b, hb, others, hothers, hresults⟩
      exact ⟨b, others, hb, hothers, (Except.ok.inj hresults).symm⟩
    · rintro ⟨b, others, hb, hothers, rfl⟩
      exact ⟨b, hb, others, hothers, rfl⟩

/-- The members that named things give when each is read by `read`. -/
def Members {α : Type} (read : α → Except Fault Value) (entries : List (String × α))
    (members : List (String × Value)) : Prop :=
  List.Forall₂ (fun entry member ↦ entry.1 = member.1 ∧ read entry.2 = .ok member.2) entries members

theorem exists_members_iff {α : Type} {read : α → Except Fault Value}
    {entries : List (String × α)} :
    (∃ members, Members read entries members) ↔
      ∀ entry ∈ entries, ∃ value, read entry.2 = .ok value := by
  simp only [Members, exists_forall₂_iff, Prod.exists, exists_and_left, exists_eq_left']

/-- A place of a row can be read just when there is a value of the right type. -/
theorem Cell.exists_read_iff (row : Row) (cell : Cell) :
    (∃ value, cell.read row = .ok value) ↔
      ∃ value, row[cell.position]? = some value ∧ cell.type.accepts value = true := by
  unfold Cell.read
  cases row[cell.position]? with
  | none => simp
  | some value =>
    by_cases haccepts : cell.type.accepts value = true
    · simp [haccepts]
    · simp [haccepts]

/-- Reads named things one after the other and adds their values to the members. -/
def gather {α : Type} (read : α → Except Fault Value) :
    List (String × α) → List (String × Value) → Except Fault (List (String × Value))
  | [], members => .ok members
  | (name, a) :: rest, members => do
    let value ← read a
    gather read rest (Value.insertMember name value members)

theorem gather_eq_ok_iff {α : Type} (read : α → Except Fault Value) (entries : List (String × α))
    (held members : List (String × Value)) :
    gather read entries held = .ok members ↔
      ∃ added, Members read entries added ∧ members = Value.insertAll held added := by
  induction entries generalizing held with
  | nil =>
    simp only [gather, Members, List.forall₂_nil_left_iff, exists_eq_left, Value.insertAll_nil,
      Except.ok.injEq]
    exact eq_comm
  | cons entry rest ih =>
    simp only [gather, bind_eq_ok_iff, ih, Members, List.forall₂_cons_left_iff]
    constructor
    · rintro ⟨value, hvalue, added, hadded, rfl⟩
      exact ⟨_, ⟨(entry.1, value), added, ⟨rfl, hvalue⟩, hadded, rfl⟩, rfl⟩
    · rintro ⟨-, ⟨member, added, ⟨hname, hvalue⟩, hadded, rfl⟩, rfl⟩
      exact ⟨member.2, hvalue, added, hadded, by rw [hname, Value.insertAll_cons]⟩

namespace EntityReader

theorem readAttributes_eq_gather (row : Row) (attributes : List (String × Cell))
    (held : List (String × Value)) :
    readAttributes row attributes held = gather (Cell.read row) attributes held := by
  induction attributes generalizing held with
  | nil => rfl
  | cons entry rest ih => simp only [readAttributes, gather, ih]

theorem readFetches_eq_gather (row : Row) (fetches : List (String × EntityReader))
    (held : List (String × Value)) :
    readFetches row fetches held = gather (read row) fetches held := by
  induction fetches generalizing held with
  | nil => rfl
  | cons entry rest ih => simp only [readFetches, gather, ih]

/-- An object is read when all of its attributes and fetched objects are. It has their values as its
members, those of the fetched objects inserted last. -/
theorem read_eq_ok_iff (row : Row) (reader : EntityReader) (value : Value) :
    reader.read row = .ok value ↔
      ∃ own fetched, Members (Cell.read row) reader.attributes own ∧
        Members (read row) reader.fetches fetched ∧
        value = .object (Value.insertAll [] (own ++ fetched)) := by
  obtain ⟨path, attributes, fetches⟩ := reader
  simp only [read, readAttributes_eq_gather, readFetches_eq_gather, bind_eq_ok_iff,
    gather_eq_ok_iff, Value.insertAll_append]
  constructor
  · rintro ⟨-, ⟨own, hown, rfl⟩, -, ⟨fetched, hfetched, rfl⟩, hvalue⟩
    exact ⟨own, fetched, hown, hfetched, (Except.ok.inj hvalue).symm⟩
  · rintro ⟨own, fetched, hown, hfetched, rfl⟩
    exact ⟨_, ⟨own, hown, rfl⟩, _, ⟨fetched, hfetched, rfl⟩, rfl⟩

mutual

/-- The cells that a reader reads, in its order. -/
def cells : EntityReader → List Cell
  | ⟨_, attributes, fetches⟩ => attributes.map Prod.snd ++ fetchedCells fetches
  termination_by structural reader => reader

/-- The cells that fetched readers read. -/
def fetchedCells : List (String × EntityReader) → List Cell
  | [] => []
  | (_, reader) :: rest => reader.cells ++ fetchedCells rest
  termination_by structural fetches => fetches

end

mutual

/-- The positions of a reader are those of its cells. -/
theorem positions_eq_map_cells : ∀ reader : EntityReader,
    reader.positions = reader.cells.map Cell.position
  | ⟨_, attributes, fetches⟩ => by
    rw [positions, cells, List.map_append, List.map_map, fetchPositions_eq_map_cells fetches]
    rfl
  termination_by structural reader => reader

theorem fetchPositions_eq_map_cells : ∀ fetches : List (String × EntityReader),
    fetchPositions fetches = (fetchedCells fetches).map Cell.position
  | [] => rfl
  | (_, reader) :: rest => by
    rw [fetchPositions, fetchedCells, List.map_append, positions_eq_map_cells reader,
      fetchPositions_eq_map_cells rest]
  termination_by structural fetches => fetches

end

mutual

/-- An object can be read just when each of its cells can. -/
theorem exists_read_iff (row : Row) : ∀ reader : EntityReader,
    (∃ value, reader.read row = .ok value) ↔
      ∀ cell ∈ reader.cells, ∃ value, cell.read row = .ok value
  | ⟨path, attributes, fetches⟩ => by
    have hread : (∃ value, read row ⟨path, attributes, fetches⟩ = .ok value) ↔
        (∃ own, Members (Cell.read row) attributes own) ∧
          ∃ fetched, Members (read row) fetches fetched := by
      simp only [read_eq_ok_iff]
      constructor
      · rintro ⟨-, own, fetched, hown, hfetched, -⟩
        exact ⟨⟨own, hown⟩, fetched, hfetched⟩
      · rintro ⟨⟨own, hown⟩, fetched, hfetched⟩
        exact ⟨_, own, fetched, hown, hfetched, rfl⟩
    rw [hread, exists_members_iff, exists_members_iff, exists_readAll_iff row fetches, cells]
    simp only [List.forall_mem_append, List.forall_mem_map]
  termination_by structural reader => reader

theorem exists_readAll_iff (row : Row) : ∀ fetches : List (String × EntityReader),
    (∀ entry ∈ fetches, ∃ value, entry.2.read row = .ok value) ↔
      ∀ cell ∈ fetchedCells fetches, ∃ value, cell.read row = .ok value
  | [] => by simp [fetchedCells]
  | (name, reader) :: rest => by
    rw [List.forall_mem_cons, exists_read_iff row reader, exists_readAll_iff row rest, fetchedCells,
      List.forall_mem_append]
  termination_by structural fetches => fetches

end

end EntityReader

/-- The cells that a reader reads. -/
def Reader.cells : Reader → List Cell
  | basic cell _ => [cell]
  | entity reader => reader.cells

/-- The positions that a reader reads. -/
def Reader.positions : Reader → List Nat
  | basic cell _ => [cell.position]
  | entity reader => reader.positions

theorem Reader.positions_eq_map_cells (reader : Reader) :
    reader.positions = reader.cells.map Cell.position := by
  cases reader with
  | basic cell label => rfl
  | entity reader => exact reader.positions_eq_map_cells

/-- The positions of readers, one after the other, are those of their cells. -/
theorem Reader.flatMap_positions (readers : List Reader) :
    readers.flatMap positions = (readers.flatMap cells).map Cell.position := by
  have hpositions : positions = fun reader ↦ reader.cells.map Cell.position :=
    funext positions_eq_map_cells
  rw [List.map_flatMap, hpositions]

theorem Reader.exists_read_iff (row : Row) (reader : Reader) :
    (∃ value, reader.read row = .ok value) ↔
      ∀ cell ∈ reader.cells, ∃ value, cell.read row = .ok value := by
  cases reader with
  | basic cell label => simp [Reader.read, cells]
  | entity reader => exact reader.exists_read_iff row

/-- A row can be read just when each cell of the readers can. -/
theorem Lowered.exists_readRow_iff (lowered : Lowered) (row : Row) :
    (∃ values, lowered.readRow row = .ok values) ↔
      ∀ cell ∈ lowered.readers.flatMap Reader.cells, ∃ value, cell.read row = .ok value := by
  simp only [readRow, mapM_eq_ok_iff, exists_forall₂_iff, Reader.exists_read_iff,
    List.forall_mem_flatMap]

/-! ### What is asked for and shown -/

namespace EntityGraph

mutual

/-- The columns that the object of an entity shows: of several attributes of one name the last. -/
def shownAt (node : FetchNode) : EntityGraph → List (FetchNode × Column)
  | ⟨_, _, table, attributes, fetches⟩ =>
    (Attribute.shown attributes).map (fun attr ↦ (node, attr.column table.correlation)) ++
      fetchedShownAt node fetches
  termination_by structural graph => graph

/-- The columns that fetched objects show. -/
def fetchedShownAt (node : FetchNode) : List (String × EntityGraph) → List (FetchNode × Column)
  | [] => []
  | (name, graph) :: rest => graph.shownAt (node.fetch name) ++ fetchedShownAt node rest
  termination_by structural fetches => fetches

end

variable {r : FetchNode × Column → Nat → Prop}

mutual

/-- The cells of an entity are its shown columns, each at a position that `r` allows for it. -/
theorem forall₂_cells : ∀ (graph : EntityGraph) {node : FetchNode} {positions : List Nat}
    {reader : EntityReader}, graph.ReadBy node positions reader →
    List.Forall₂ r (graph.columnsAt node) positions →
    List.Forall₂ (fun site cell ↦ site.2.type = cell.type ∧ r site cell.position)
      (graph.shownAt node) reader.cells
  | ⟨entity, label, table, attributes, fetches⟩, node, _, ⟨path, cells, readers⟩ => by
    rw [ReadBy]
    rintro ⟨-, own, below, rfl, hown, -, rfl, hbelow⟩ hplaces
    rw [columnsAt] at hplaces
    obtain ⟨hattributes, hfetches⟩ :=
      forall₂_append_of_length_eq (by rw [List.length_map, hown]) hplaces
    rw [List.forall₂_map_left_iff] at hattributes
    rw [shownAt, EntityReader.cells]
    refine List.rel_append ?_ (forall₂_fetchedCells fetches hbelow hfetches)
    rw [List.forall₂_map_left_iff, List.forall₂_map_right_iff]
    exact (Attribute.forall₂_cells hattributes).imp fun attr entry hentry ↦ hentry.2
  termination_by structural graph => graph

theorem forall₂_fetchedCells : ∀ (fetches : List (String × EntityGraph)) {node : FetchNode}
    {positions : List Nat} {readers : List (String × EntityReader)},
    FetchesReadBy node fetches positions readers →
    List.Forall₂ r (fetchedColumnsAt node fetches) positions →
    List.Forall₂ (fun site cell ↦ site.2.type = cell.type ∧ r site cell.position)
      (fetchedShownAt node fetches) (EntityReader.fetchedCells readers)
  | [], node, _, _ => by
    rw [FetchesReadBy]
    rintro ⟨-, rfl⟩ -
    exact .nil
  | (name, graph) :: rest, node, _, _ => by
    rw [FetchesReadBy]
    rintro ⟨own, below, reader, others, rfl, rfl, hown, hbelow⟩ hplaces
    rw [fetchedColumnsAt] at hplaces
    obtain ⟨hgraph, hrest⟩ := forall₂_append_of_length_eq (length_of_readBy graph hown) hplaces
    rw [fetchedShownAt, EntityReader.fetchedCells]
    exact List.rel_append (forall₂_cells graph hown hgraph) (forall₂_fetchedCells rest hbelow hrest)
  termination_by structural fetches => fetches

end

end EntityGraph

namespace QueryItem

/-- What a selected thing asks for and shows, after the columns in `seen`. -/
def shownDemands (seen : List Column) : QueryItem → List Demand
  | entity graph =>
    (graph.shownAt graph.rootNode).map (Column.demand .first (seen ++ graph.columns))
  | item => item.demands .first seen

/-- What selected things ask for and show, one after the other. -/
def shownDemandsAll (seen : List Column) : List QueryItem → List Demand
  | [] => []
  | item :: rest => item.shownDemands seen ++ shownDemandsAll (seen ++ item.columns) rest

variable {r : Demand → Nat → Prop}

/-- The cells of a selected thing are what it asks for and shows, each at a position that `r` allows
for it. -/
theorem forall₂_cells {seen : List Column} {item : QueryItem} {positions : List Nat}
    {reader : Reader} (h : item.ReadBy seen positions reader)
    (hplaces : List.Forall₂ r (item.demands .first seen) positions) :
    List.Forall₂ (fun d cell ↦ d.type = cell.type ∧ r d cell.position)
      (item.shownDemands seen) reader.cells := by
  cases item with
  | scalar e type label =>
    obtain ⟨position, rfl, rfl⟩ := h
    exact .cons ⟨rfl, (List.forall₂_cons.mp hplaces).1⟩ .nil
  | entity graph =>
    obtain ⟨reader, rfl, hreader⟩ := h
    rw [demands, List.forall₂_map_left_iff] at hplaces
    rw [shownDemands, List.forall₂_map_left_iff]
    exact graph.forall₂_cells hreader hplaces
  | subquery query label =>
    obtain ⟨position, rfl, rfl⟩ := h
    exact .cons ⟨rfl, (List.forall₂_cons.mp hplaces).1⟩ .nil

theorem forall₂_allCells {seen : List Column} {items : List QueryItem} {positions : List Nat}
    {readers : List Reader} (h : AllReadBy seen items positions readers)
    (hplaces : List.Forall₂ r (demandsAll .first seen items) positions) :
    List.Forall₂ (fun d cell ↦ d.type = cell.type ∧ r d cell.position)
      (shownDemandsAll seen items) (readers.flatMap Reader.cells) := by
  induction items generalizing seen positions readers with
  | nil =>
    obtain ⟨-, rfl⟩ := h
    exact .nil
  | cons item rest ih =>
    obtain ⟨own, below, reader, others, rfl, rfl, hown, hbelow⟩ := h
    obtain ⟨hitem, hrest⟩ := forall₂_append_of_length_eq (length_of_readBy hown) hplaces
    rw [shownDemandsAll, List.flatMap_cons]
    exact List.rel_append (forall₂_cells hown hitem) (ih hbelow hrest)

end QueryItem

/-- What a query asks for and shows. -/
def Query.shownDemands (query : Query) : List Demand :=
  QueryItem.shownDemandsAll [] query.selections

end ObjectSelect
