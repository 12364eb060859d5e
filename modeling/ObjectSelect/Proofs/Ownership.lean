import ObjectSelect.Proofs.Answers
import ObjectSelect.Proofs.Cells

/-!
# Which readers share a position

A block that shares within fetch trees gives one position to two demands only if both come from
fetch trees of one root (`Demand.root?_of_repeats`). All that an entity asks for comes from its own
fetch tree, whatever it fetches, and a single value is asked for outside of any
(`QueryItem.root?_of_mem_demands`). So two readers of a lowered query that have a position in common
are readers of entities with one root (`Lowered.entities_of_shared_position`): every scalar and
every nested query has a position for itself, and entities of different roots are read at different
positions, even if their columns are the same.
-/

set_option autoImplicit false
set_option relaxedAutoImplicit false

namespace ObjectSelect

/-! ### Roots -/

/-- The root of the fetch tree that a demand comes from, if it comes from one. -/
def Demand.root? (d : Demand) : Option Path :=
  d.node.map FetchNode.rootPath

/-- The root of the fetch tree that a selected thing asks for. -/
def QueryItem.root? : QueryItem → Option Path
  | entity graph => some (.root graph.entity graph.label)
  | _ => none

/-- The root of the fetch tree that a reader reads. -/
def Reader.root? : Reader → Option Path
  | basic _ _ => none
  | entity reader => some reader.path

/-- Where only fetch trees share, a demand repeats one that comes from a tree of the same root. -/
theorem Demand.root?_of_repeats {d earlier : Demand} (h : d.repeats false earlier = true) :
    ∃ root, earlier.root? = some root ∧ d.root? = some root := by
  obtain ⟨hoff, hscope, -⟩ := repeats_iff.mp h
  cases hnode : d.node with
  | none => simp [scope, Scope.of, hnode] at hoff
  | some node =>
    cases hearlier : earlier.node with
    | none => simp [scope, Scope.of, hnode, hearlier] at hscope
    | some other =>
      have hroot : other.rootPath = node.rootPath := by
        simpa [scope, Scope.of, hnode, hearlier] using hscope
      exact ⟨node.rootPath, by rw [root?, hearlier, Option.map_some, hroot],
        by rw [root?, hnode, Option.map_some]⟩

namespace QueryItem

/-- All that a selected thing asks for comes from its own fetch tree. -/
theorem root?_of_mem_demands {naming : Naming} {seen : List Column} {item : QueryItem} {d : Demand}
    (h : d ∈ item.demands naming seen) : d.root? = item.root? := by
  cases item with
  | scalar e type label =>
    obtain rfl := List.mem_singleton.mp h
    rfl
  | entity graph =>
    obtain ⟨site, hsite, rfl⟩ := List.mem_map.mp h
    exact congrArg some (graph.rootPath_of_mem_columnsAt site hsite)
  | subquery query label =>
    obtain rfl := List.mem_singleton.mp h
    rfl

theorem root?_of_readBy {seen : List Column} {item : QueryItem} {positions : List Nat}
    {reader : Reader} (h : item.ReadBy seen positions reader) : reader.root? = item.root? := by
  cases item with
  | scalar e type label =>
    obtain ⟨position, -, rfl⟩ := h
    rfl
  | entity graph =>
    obtain ⟨⟨path, cells, readers⟩, rfl, hreader⟩ := h
    obtain ⟨entity, label, table, attributes, fetches⟩ := graph
    rw [EntityGraph.ReadBy] at hreader
    obtain ⟨-, -, -, -, -, rfl, -⟩ := hreader
    rfl
  | subquery query label =>
    obtain ⟨position, -, rfl⟩ := h
    rfl

/-! ### Positions that readers have in common -/

/-- A position that is read was given for a demand of the reader's own fetch tree. -/
theorem exists_demand_of_mem_positions {seen : List Column} {item : QueryItem}
    {positions : List Nat} {reader : Reader} (h : item.ReadBy seen positions reader)
    {position : Nat} (hmem : position ∈ reader.positions) :
    ∃ d, (d, position) ∈ (item.demands .first seen).zip positions ∧ d.root? = reader.root? := by
  have hplaces : List.Forall₂ (fun d place ↦ (d, place) ∈ (item.demands .first seen).zip positions)
      (item.demands .first seen) positions :=
    List.forall₂_iff_zip.mpr ⟨length_of_readBy h, fun hzip ↦ hzip⟩
  rw [reader.positions_eq_map_cells] at hmem
  obtain ⟨cell, hcell, rfl⟩ := List.mem_map.mp hmem
  obtain ⟨d, -, hzip⟩ := exists_forall₂_iff.mp ⟨_, (forall₂_cells h hplaces).flip⟩ cell hcell
  refine ⟨d, hzip, ?_⟩
  rw [root?_of_mem_demands (List.of_mem_zip hzip).1, root?_of_readBy h]

theorem exists_demandAll_of_mem_positions {seen : List Column} {items : List QueryItem}
    {positions : List Nat} {readers : List Reader} (h : AllReadBy seen items positions readers)
    {reader : Reader} (hreader : reader ∈ readers) {position : Nat}
    (hmem : position ∈ reader.positions) :
    ∃ d, (d, position) ∈ (demandsAll .first seen items).zip positions ∧
      d.root? = reader.root? := by
  induction items generalizing seen positions readers with
  | nil =>
    obtain ⟨-, rfl⟩ := h
    cases hreader
  | cons item rest ih =>
    obtain ⟨own, below, first, others, rfl, rfl, hown, hbelow⟩ := h
    rw [demandsAll, List.zip_append (length_of_readBy hown)]
    rcases List.mem_cons.mp hreader with rfl | hothers
    · obtain ⟨d, hzip, hroot⟩ := exists_demand_of_mem_positions hown hmem
      exact ⟨d, List.mem_append_left _ hzip, hroot⟩
    · obtain ⟨d, hzip, hroot⟩ := ih hbelow hothers
      exact ⟨d, List.mem_append_right _ hzip, hroot⟩

/-- Readers have positions in common only if they read fetch trees of one root, if demands are given
the same position only when the later one repeats the earlier one. -/
theorem pairwise_root?_of_allReadBy {seen : List Column} {items : List QueryItem}
    {positions : List Nat} {readers : List Reader} (h : AllReadBy seen items positions readers)
    (hpairs : ((demandsAll .first seen items).zip positions).Pairwise fun earlier later ↦
      earlier.2 = later.2 → later.1.repeats false earlier.1 = true) :
    readers.Pairwise fun reader later ↦ ∀ position ∈ reader.positions,
      position ∈ later.positions → ∃ root, reader.root? = some root ∧ later.root? = some root := by
  induction items generalizing seen positions readers with
  | nil =>
    obtain ⟨-, rfl⟩ := h
    exact .nil
  | cons item rest ih =>
    obtain ⟨own, below, reader, others, rfl, rfl, hown, hbelow⟩ := h
    rw [demandsAll, List.zip_append (length_of_readBy hown)] at hpairs
    obtain ⟨-, hrest, hacross⟩ := List.pairwise_append.mp hpairs
    refine List.pairwise_cons.mpr ⟨fun later hlater position hmem hmemLater ↦ ?_, ih hbelow hrest⟩
    obtain ⟨d, hd, hroot⟩ := exists_demand_of_mem_positions hown hmem
    obtain ⟨d', hd', hroot'⟩ := exists_demandAll_of_mem_positions hbelow hlater hmemLater
    rw [← hroot, ← hroot']
    exact Demand.root?_of_repeats (hacross _ hd _ hd' rfl)

end QueryItem

/-- Readers of a block that shares within fetch trees have positions in common only if they read
fetch trees of one root. -/
theorem Query.LowersTo.pairwise_root? {seen : List Column} {query : Query} {lowered : Lowered}
    (h : query.LowersTo false seen lowered) :
    lowered.readers.Pairwise fun reader later ↦ ∀ position ∈ reader.positions,
      position ∈ later.positions → ∃ root, reader.root? = some root ∧ later.root? = some root := by
  obtain ⟨selections, tables⟩ := query
  refine QueryItem.pairwise_root?_of_allReadBy h.readers ?_
  rw [List.zip_map_right, List.pairwise_map]
  exact Ledger.pairwise_answers (.empty false 0) _

theorem Reader.exists_entity_of_root? {reader : Reader} {root : Path}
    (h : reader.root? = some root) : ∃ entity, reader = .entity entity ∧ entity.path = root := by
  cases reader with
  | basic cell label => cases h
  | entity entity => exact ⟨entity, rfl, Option.some.inj h⟩

namespace Lowered

/-- Which readers have a position in common. Assumes: a query is lowered in a block that shares
within fetch trees only, and two of the readers both read some position. Both are readers of
entities, and the entities have the same path. -/
theorem entities_of_shared_position {config : Config} {query : Query} {lowered : Lowered}
    (hlower : lower config query = .ok lowered) (hscoped : config.shareSelections = false)
    {i j : Nat} (hij : i ≠ j) {reader other : Reader} (hi : lowered.readers[i]? = some reader)
    (hj : lowered.readers[j]? = some other) {position : Nat}
    (hposition : position ∈ reader.positions) (hposition' : position ∈ other.positions) :
    ∃ entity entity', reader = .entity entity ∧ other = .entity entity' ∧
      entity.path = entity'.path := by
  have hlowers := Query.lowersTo_of_lower hlower
  rw [hscoped] at hlowers
  have hpairs := List.pairwise_iff_getElem.mp hlowers.pairwise_root?
  obtain ⟨hlt, rfl⟩ := List.getElem?_eq_some_iff.mp hi
  obtain ⟨hlt', rfl⟩ := List.getElem?_eq_some_iff.mp hj
  obtain ⟨root, hroot, hroot'⟩ : ∃ root, lowered.readers[i].root? = some root ∧
      lowered.readers[j].root? = some root := by
    rcases Nat.lt_or_gt_of_ne hij with hbefore | hafter
    · exact hpairs i j hlt hlt' hbefore position hposition hposition'
    · obtain ⟨root, hroot', hroot⟩ := hpairs j i hlt' hlt hafter position hposition' hposition
      exact ⟨root, hroot, hroot'⟩
  obtain ⟨entity, hentity, hpath⟩ := Reader.exists_entity_of_root? hroot
  obtain ⟨entity', hentity', hpath'⟩ := Reader.exists_entity_of_root? hroot'
  exact ⟨entity, entity', hentity, hentity', hpath.trans hpath'.symm⟩

end Lowered

/-- The name of a person, read for the root of the given label. -/
def EntityGraph.personAt (label : String) : EntityGraph :=
  ⟨"Person", some label, ⟨"person", "p"⟩, [⟨"name", "name", .string, false⟩], []⟩

/-- The name of a person for one root, for none, for another root, and for the first root again. -/
def Query.namesByRoot : Query :=
  ⟨[.entity (.personAt "a"), .scalar (.column ⟨"p", "name", false, .string⟩) .string none,
    .entity (.personAt "b"), .entity (.personAt "a")], []⟩

/-- Only the two readers for the first root have a position in common. -/
theorem Lowered.entities_of_namesByRoot : ∃ lowered,
    lower .fetchScoped Query.namesByRoot = .ok lowered ∧
    lowered.readers.map Reader.positions = [[0], [1], [2], [0]] ∧
    ∃ entity entity', lowered.readers[0]? = some (.entity entity) ∧
      lowered.readers[3]? = some (.entity entity') ∧ entity.path = entity'.path := by
  have hpositions : (lower .fetchScoped Query.namesByRoot).toOption.map
      (fun lowered ↦ lowered.readers.map Reader.positions) = some [[0], [1], [2], [0]] := by
    decide +kernel
  cases hlower : lower .fetchScoped Query.namesByRoot with
  | error failure => simp [hlower, Except.toOption] at hpositions
  | ok lowered =>
    rw [hlower] at hpositions
    have hmap : lowered.readers.map Reader.positions = [[0], [1], [2], [0]] :=
      Option.some.inj hpositions
    have hfirst : (lowered.readers.map Reader.positions)[0]? = some [0] := by rw [hmap]; rfl
    have hlast : (lowered.readers.map Reader.positions)[3]? = some [0] := by rw [hmap]; rfl
    rw [List.getElem?_map, Option.map_eq_some_iff] at hfirst hlast
    obtain ⟨first, hfirst, hzero⟩ := hfirst
    obtain ⟨last, hlast, hzero'⟩ := hlast
    obtain ⟨entity, entity', rfl, rfl, hpath⟩ :=
      entities_of_shared_position hlower rfl (by decide) hfirst hlast
        (hzero ▸ List.mem_cons_self) (hzero' ▸ List.mem_cons_self)
    exact ⟨lowered, rfl, hmap, entity, entity', hfirst, hlast, hpath⟩

end ObjectSelect
