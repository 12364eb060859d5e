import ObjectSelect.Proofs.Answers
import ObjectSelect.Proofs.Extension
import ObjectSelect.Proofs.Objects
import ObjectSelect.Proofs.Subqueries

/-!
# Selecting an entity again

An entity that a query selects a second time costs nothing: the reader is the one of the first time,
and the query without the second selection is lowered to the same select list and tables.

All columns of the entity were seen when it comes again, so the same columns stand for them as the
first time and it asks for the same (`QueryItem.demands_entity_again`), whatever other columns of
their keys the query maps in between. What an entity asks for is always shared, in the block or in
its fetch tree, so it is given the same answers and nothing is selected
(`QueryItem.answers_entity_again`). What comes after is named as if the entity had not come again
(`Naming.agree_first_of_subset`) and finds the same ledger, so the selection can be left out
(`lower_without`).
-/

set_option autoImplicit false
set_option relaxedAutoImplicit false

namespace ObjectSelect

/-! ### Readers under namings that agree -/

namespace QueryItem

variable {cols seen seen' : List Column}

theorem ReadBy.of_agree {item : QueryItem} {positions : List Nat} {reader : Reader}
    (h : item.ReadBy seen positions reader) (hagree : Naming.Agree cols .first seen .first seen')
    (hitem : item.mappedColumns ⊆ cols) : item.ReadBy seen' positions reader := by
  cases item with
  | scalar e type label => exact h
  | entity graph => exact h
  | subquery query label =>
    rw [ReadBy, Query.block, query.demands_congr hagree hitem] at h
    exact h

/-- Selected things are read as they are under namings that agree. -/
theorem ReadFrom.of_agree {ledger : Ledger} {items : List QueryItem} {readers : List Reader}
    (h : ReadFrom ledger seen items readers)
    (hagree : Naming.Agree cols .first seen .first seen') (hitems : mappedColumnsAll items ⊆ cols) :
    ReadFrom ledger seen' items readers := by
  induction items generalizing ledger seen seen' readers with
  | nil => exact h
  | cons item rest ih =>
    obtain ⟨hitem, hrest⟩ := List.append_subset.mp hitems
    have hcolumns := List.Subset.trans item.columns_subset_mappedColumns hitem
    obtain ⟨reader, others, rfl, hown, hbelow⟩ := readFrom_cons_iff.mp h
    rw [item.demands_congr hagree hitem] at hown hbelow
    exact readFrom_cons_iff.mpr ⟨reader, others, rfl, hown.of_agree hagree hitem,
      ih hbelow (hagree.append hcolumns) hrest⟩

end QueryItem

/-! ### Leaving out what brings nothing new -/

/-- Columns that were seen already and are seen again do not change which columns stand for
others. -/
theorem Naming.agree_first_of_subset (cols : List Column) {seen again : List Column}
    (h : again ⊆ seen) : Agree cols .first (seen ++ again) .first seen := by
  intro more _ c _
  rw [first, first, List.find?_append, List.find?_append, List.find?_append]
  cases hseen : seen.find? fun earlier ↦ earlier.key == c.key with
  | some earlier => rfl
  | none =>
    have hagain : again.find? (fun earlier ↦ earlier.key == c.key) = none :=
      List.find?_eq_none.mpr fun other hother ↦ List.find?_eq_none.mp hseen other (h hother)
    rw [hagain, Option.or_none]

theorem eraseIdx_append_cons {α : Type} (before after : List α) (a : α) :
    (before ++ a :: after).eraseIdx before.length = before ++ after := by
  rw [List.eraseIdx_append_of_length_le (Nat.le_refl _), Nat.sub_self, List.eraseIdx_cons_zero]

/-- Tables that are named again add none. -/
theorem Query.sources_without {before after : List QueryItem} {item : QueryItem}
    (h : item.tables ⊆ before.flatMap QueryItem.tables) (tables : List Table) :
    sources ⟨before ++ item :: after, tables⟩ = sources ⟨before ++ after, tables⟩ := by
  rw [sources, sources, List.flatMap_append, List.flatMap_cons, List.flatMap_append,
    List.filter_append, List.filter_append, List.filter_append,
    eraseDups_append_of_subset (List.filter_subset _ h)]

section

variable {flat : Bool} {seen : List Column} {before after : List QueryItem} {item : QueryItem}
  {tables : List Table}

/-- A selected thing whose columns, tables and demands were all there before it can be left out. The
block stays as it is, and so do the other readers. -/
theorem Query.LowersTo.without {lowered : Lowered}
    (h : LowersTo flat seen ⟨before ++ item :: after, tables⟩ lowered)
    (hcolumns : item.columns ⊆ seen ++ before.flatMap QueryItem.columns)
    (htables : item.tables ⊆ before.flatMap QueryItem.tables)
    (hledger : ((Ledger.empty flat 0).noteAll (QueryItem.demandsAll .first seen before)).noteAll
        (item.demands .first (seen ++ before.flatMap QueryItem.columns)) =
      (Ledger.empty flat 0).noteAll (QueryItem.demandsAll .first seen before)) :
    LowersTo flat seen ⟨before ++ after, tables⟩
      ⟨lowered.spec, lowered.readers.eraseIdx before.length⟩ := by
  have hagree := Naming.agree_first_of_subset (QueryItem.mappedColumnsAll after) hcolumns
  have hafter := QueryItem.demandsAll_congr after hagree (List.Subset.refl _)
  constructor
  · rw [h.spec_eq, sources_without htables, demands, demands, QueryItem.demandsAll_append,
      QueryItem.demandsAll_append, QueryItem.demandsAll, hafter, Ledger.noteAll_append,
      Ledger.noteAll_append, Ledger.noteAll_append, hledger]
  · obtain ⟨own, reader, others, hreaders, hbefore, -, hothers⟩ :=
      QueryItem.ReadFrom.exists_split h.readers
    rw [hledger] at hothers
    have herase : lowered.readers.eraseIdx before.length = own ++ others := by
      rw [hreaders, ← hbefore.length_eq, eraseIdx_append_cons]
    exact QueryItem.readFrom_append_iff.mpr
      ⟨own, others, herase, hbefore, hothers.of_agree hagree (List.Subset.refl _)⟩

/-- No fault comes up where something is left out whose columns were all seen before it. -/
theorem Query.fault?_without {shares : Bool} (hbefore : before ≠ [])
    (hcolumns : item.columns ⊆ seen ++ before.flatMap QueryItem.columns)
    (h : fault? shares .first seen ⟨before ++ item :: after, tables⟩ = none) :
    fault? shares .first seen ⟨before ++ after, tables⟩ = none := by
  have hagree := Naming.agree_first_of_subset (QueryItem.mappedColumnsAll after) hcolumns
  have hafter := QueryItem.faultAll?_congr shares after hagree (List.Subset.refl _)
  rw [fault?_append_of_ne_nil hbefore, Option.or_eq_none_iff] at h ⊢
  rw [QueryItem.faultAll?, Option.or_eq_none_iff, hafter] at h
  exact ⟨h.1, h.2.2⟩

/-- A query without a selected thing that brings nothing new is lowered as it is with it. -/
theorem lower_without {config : Config} {lowered : Lowered}
    (hlower : lower config ⟨before ++ item :: after, tables⟩ = .ok lowered) (hbefore : before ≠ [])
    (hcolumns : item.columns ⊆ before.flatMap QueryItem.columns)
    (htables : item.tables ⊆ before.flatMap QueryItem.tables)
    (hledger : ∀ ledger : Ledger,
      (ledger.noteAll (QueryItem.demandsAll .first [] before)).noteAll
          (item.demands .first ([] ++ before.flatMap QueryItem.columns)) =
        ledger.noteAll (QueryItem.demandsAll .first [] before)) :
    lower config ⟨before ++ after, tables⟩ =
      .ok ⟨lowered.spec, lowered.readers.eraseIdx before.length⟩ := by
  have hfault := Query.fault?_without hbefore hcolumns
    ((exists_lower_iff config _).mp ⟨lowered, hlower⟩)
  obtain ⟨lowered', hlower'⟩ := (exists_lower_iff config _).mpr hfault
  have hwithout := (Query.lowersTo_of_lower hlower).without hcolumns htables (hledger _)
  rw [hlower', (Query.lowersTo_of_lower hlower').unique hwithout]

end

/-! ### An entity that comes again -/

namespace QueryItem

/-- An entity that comes again asks for what it asked for the first time. -/
theorem demands_entity_again (graph : EntityGraph) (seen between : List Column) :
    (entity graph).demands .first (seen ++ graph.columns ++ between) =
      (entity graph).demands .first seen := by
  refine List.map_congr_left fun site hsite ↦ ?_
  have hmem : site.2 ∈ seen ++ graph.columns :=
    List.mem_append_right seen (List.mem_map_of_mem hsite)
  rw [Column.demand, Column.demand, List.append_assoc _ between, Naming.first_append_of_mem hmem]

/-- What an entity asks for is shared, in the block or within its fetch tree. -/
theorem scope_ne_off_of_mem_demands {graph : EntityGraph} {naming : Naming} {seen : List Column}
    (flat : Bool) {d : Demand} (h : d ∈ (entity graph).demands naming seen) :
    d.scope flat ≠ .off := by
  obtain ⟨site, -, rfl⟩ := List.mem_map.mp h
  cases flat <;> exact nofun

/-- An entity that comes again is given the answers of the first time, and nothing is selected. -/
theorem answers_entity_again (ledger : Ledger) (seen : List Column) (graph : EntityGraph)
    (between : List QueryItem) :
    let ds := (entity graph).demands .first seen
    let later := (ledger.noteAll ds).noteAll (demandsAll .first (seen ++ graph.columns) between)
    let again := (entity graph).demands .first
      (seen ++ graph.columns ++ between.flatMap columns)
    later.answers again = ledger.answers ds ∧ later.noteAll again = later := by
  rw [demands_entity_again]
  exact Ledger.answers_again (fun d hd ↦ scope_ne_off_of_mem_demands ledger.flat hd) _

theorem noteAll_entity_again (ledger : Ledger) (seen : List Column) (graph : EntityGraph)
    (before between : List QueryItem) :
    let earlier := before ++ entity graph :: between
    (ledger.noteAll (demandsAll .first seen earlier)).noteAll
        ((entity graph).demands .first (seen ++ earlier.flatMap columns)) =
      ledger.noteAll (demandsAll .first seen earlier) := by
  have hagain := (answers_entity_again (ledger.noteAll (demandsAll .first seen before))
    (seen ++ before.flatMap columns) graph between).2
  simpa [demandsAll_append, demandsAll, Ledger.noteAll_append, columns] using hagain

/-- Where an entity comes again it is read as the first time. -/
theorem ReadFrom.exists_again {ledger : Ledger} {seen : List Column} {graph : EntityGraph}
    {before between after : List QueryItem} {readers : List Reader}
    (h : ReadFrom ledger seen (before ++ entity graph :: (between ++ entity graph :: after))
      readers) :
    ∃ own reader others rest,
      readers = own ++ .entity reader :: (others ++ .entity reader :: rest) ∧
      own.length = before.length ∧ others.length = between.length ∧ reader.Keyed := by
  obtain ⟨own, _, below, rfl, hbefore, ⟨reader, rfl, hreader⟩, hbelow⟩ := h.exists_split
  obtain ⟨others, _, rest, rfl, hbetween, ⟨reader', rfl, hreader'⟩, -⟩ := hbelow.exists_split
  have hagain := (answers_entity_again (ledger.noteAll (demandsAll .first seen before))
    (seen ++ before.flatMap columns) graph between).1
  have hpositions := congrArg (List.map Selection.position) hagain
  obtain rfl : reader' = reader := by
    refine graph.eq_of_readBy ?_ hreader
    rw [← hpositions]
    exact hreader'
  exact ⟨own, reader', others, rest, rfl, hbefore.length_eq, hbetween.length_eq,
    graph.keyed_of_readBy hreader⟩

end QueryItem

namespace EntityReader

mutual

/-- A reader that has each name once is the same as itself. -/
theorem same_self : ∀ reader : EntityReader, reader.Keyed → reader.same reader = true
  | ⟨path, attributes, fetches⟩ => by
    rw [Keyed]
    rintro ⟨hattributes, hfetches, hbelow⟩
    have hsame : sameAttributes attributes attributes = true := by
      simp only [sameAttributes, BEq.rfl, Bool.true_and, List.all_eq_true, beq_iff_eq]
      exact fun entry hentry ↦ Assoc.lookup_eq_some_of_mem hattributes hentry
    have hcovered := coveredBy_of_lookup fetches fetches hbelow
      fun name reader hmem ↦ Assoc.lookup_eq_some_of_mem hfetches hmem
    simp [same, hsame, hcovered]
  termination_by structural reader => reader

theorem coveredBy_of_lookup : ∀ fetches others : List (String × EntityReader), AllKeyed fetches →
    (∀ name reader, (name, reader) ∈ fetches → others.lookup name = some reader) →
    coveredBy fetches others = true
  | [], others => fun _ _ ↦ rfl
  | (name, reader) :: rest, others => by
    rintro ⟨hreader, hrest⟩ hlookup
    have hown : others.lookup name = some reader := hlookup name reader List.mem_cons_self
    have hbelow := coveredBy_of_lookup rest others hrest
      fun name reader hmem ↦ hlookup name reader (List.mem_cons_of_mem _ hmem)
    simp [coveredBy, hown, hbelow, same_self reader hreader]
  termination_by structural fetches => fetches

end

end EntityReader

theorem exists_append_of_getElem? {α : Type} {items : List α} {i : Nat} {a : α}
    (h : items[i]? = some a) :
    ∃ before after, items = before ++ a :: after ∧ before.length = i := by
  obtain ⟨hlt, rfl⟩ := List.getElem?_eq_some_iff.mp h
  refine ⟨items.take i, items.drop (i + 1), ?_, List.length_take_of_le (Nat.le_of_lt hlt)⟩
  rw [← List.drop_eq_getElem_cons hlt, List.take_append_drop]

/-- Selecting an entity again costs nothing. Assumes: a query is lowered that selects the same
entity with the same fetches twice, with any selections before, between and after. The readers of
the two selections are the same, and the query without the second one is lowered to the same block
with the other readers as they are. -/
theorem lower_entity_again {config : Config} {query : Query} {lowered : Lowered}
    (hlower : lower config query = .ok lowered) {i j : Nat} (hij : i < j) {graph : EntityGraph}
    (hi : query.selections[i]? = some (.entity graph))
    (hj : query.selections[j]? = some (.entity graph)) :
    (∃ reader, lowered.readers[i]? = some reader ∧ lowered.readers[j]? = some reader ∧
      (reader == reader) = true) ∧
    lower config ⟨query.selections.eraseIdx j, query.tables⟩ =
      .ok ⟨lowered.spec, lowered.readers.eraseIdx j⟩ := by
  obtain ⟨selections, tables⟩ := query
  obtain ⟨before, rest, rfl, rfl⟩ := exists_append_of_getElem? hi
  obtain ⟨k, rfl⟩ := Nat.exists_eq_add_of_lt hij
  have hk : rest[k]? = some (.entity graph) := by
    simpa [List.getElem?_append_right, Nat.add_assoc] using hj
  obtain ⟨between, after, rfl, rfl⟩ := exists_append_of_getElem? hk
  constructor
  · obtain ⟨own, reader, others, rest, hreaders, hown, hothers, hkeyed⟩ :=
      QueryItem.ReadFrom.exists_again (Query.lowersTo_of_lower hlower).readers
    refine ⟨.entity reader, ?_, ?_, reader.same_self hkeyed⟩
    · simp [hreaders, ← hown]
    · simp [hreaders, ← hown, ← hothers, Nat.add_assoc]
  · have hsplit : before ++ .entity graph :: (between ++ .entity graph :: after) =
        (before ++ .entity graph :: between) ++ .entity graph :: after := by simp
    have hlength : before.length + between.length + 1 =
        (before ++ .entity graph :: between).length := by
      simp [Nat.add_assoc]
    have hmem : .entity graph ∈ before ++ .entity graph :: between := by simp
    rw [hsplit] at hlower
    rw [hsplit, hlength, eraseIdx_append_cons]
    exact lower_without hlower (List.ne_nil_of_mem hmem)
      (fun c hc ↦ List.mem_flatMap_of_mem hmem hc)
      (fun table htable ↦ List.mem_flatMap_of_mem hmem htable)
      fun ledger ↦ QueryItem.noteAll_entity_again ledger [] graph before between

/-- A person with the home, a number, a nested query for the name of the person, and the person
again. -/
def Query.personTwice : Query :=
  ⟨[.entity .person, .scalar (.function "count" []) .int none,
    .subquery ⟨[.scalar (.column ⟨"p", "name", false, .string⟩) .string none], []⟩ none,
    .entity .person], []⟩

/-- The person is read once, and the query is lowered as it is without the second person. -/
theorem lower_entity_again_person : ∃ lowered,
    lower .fetchScoped Query.personTwice = .ok lowered ∧
    (∃ reader, lowered.readers[0]? = some reader ∧ lowered.readers[3]? = some reader ∧
      (reader == reader) = true) ∧
    lower .fetchScoped ⟨Query.personTwice.selections.eraseIdx 3, []⟩ =
      .ok ⟨lowered.spec, lowered.readers.eraseIdx 3⟩ := by
  have hok : (lower .fetchScoped Query.personTwice).toBool = true := by decide +kernel
  cases hlower : lower .fetchScoped Query.personTwice with
  | error failure => simp [hlower, Except.toBool] at hok
  | ok lowered =>
    have hfirst : Query.personTwice.selections[0]? = some (.entity .person) := rfl
    have hagain : Query.personTwice.selections[3]? = some (.entity .person) := rfl
    exact ⟨lowered, rfl, lower_entity_again hlower (by decide) hfirst hagain⟩

end ObjectSelect
