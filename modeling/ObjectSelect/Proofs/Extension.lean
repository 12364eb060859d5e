import Mathlib.Data.List.Infix
import ObjectSelect.Proofs.Faults
import ObjectSelect.Proofs.Reading

/-!
# Adding selections to a query

A query that selects more keeps what it selected already: the earlier values stay where they are in
the select list, the earlier tables are still the first ones, and the earlier readers do not change.
If something is wrong with the earlier selections, the same is reported.

What a query asks for, the tables it needs, the first fault in it and its readers are all computed
from its selections one after the other, so each of them splits at an append
(`QueryItem.demandsAll_append`, `Query.sources_prefix`, `QueryItem.faultAll?_append`,
`QueryItem.readFrom_append_iff`). Later demands only add selections at the end of a ledger. The
readers of the earlier selections are those that were made without the later ones, because the
positions of their answers are the same and there is only one reader for given positions
(`EntityGraph.eq_of_readBy`, `QueryItem.eq_of_allReadBy`).
-/

set_option autoImplicit false
set_option relaxedAutoImplicit false

namespace ObjectSelect

/-! ### One reader for given positions -/

namespace EntityGraph

mutual

/-- An entity that is read at given positions has one reader. -/
theorem eq_of_readBy : ∀ (graph : EntityGraph) {node : FetchNode} {positions : List Nat}
    {reader reader' : EntityReader}, graph.ReadBy node positions reader →
    graph.ReadBy node positions reader' → reader = reader'
  | ⟨_, _, _, attributes, fetches⟩, node, _, ⟨path, cells, readers⟩, ⟨path', cells', readers'⟩ => by
    rw [ReadBy, ReadBy]
    rintro ⟨-, own, below, rfl, hown, rfl, rfl, hbelow⟩
      ⟨-, own', below', hpositions, hown', rfl, rfl, hbelow'⟩
    obtain ⟨rfl, rfl⟩ := List.append_inj hpositions (hown.trans hown'.symm)
    obtain rfl : readers = readers' := eq_of_fetchesReadBy fetches hbelow hbelow'
    rfl
  termination_by structural graph => graph

theorem eq_of_fetchesReadBy : ∀ (fetches : List (String × EntityGraph)) {node : FetchNode}
    {positions : List Nat} {readers readers' : List (String × EntityReader)},
    FetchesReadBy node fetches positions readers →
    FetchesReadBy node fetches positions readers' → readers = readers'
  | [], node, _, _, _ => by
    rw [FetchesReadBy, FetchesReadBy]
    rintro ⟨-, rfl⟩ ⟨-, rfl⟩
    rfl
  | (name, graph) :: rest, node, _, _, _ => by
    rw [FetchesReadBy, FetchesReadBy]
    rintro ⟨own, below, reader, others, rfl, rfl, hown, hbelow⟩
      ⟨own', below', reader', others', hpositions, rfl, hown', hbelow'⟩
    have hlength := (graph.length_of_readBy hown).symm.trans (graph.length_of_readBy hown')
    obtain ⟨rfl, rfl⟩ := List.append_inj hpositions hlength
    rw [eq_of_readBy graph hown hown', eq_of_fetchesReadBy rest hbelow hbelow']
  termination_by structural fetches => fetches

end

end EntityGraph

namespace QueryItem

variable {seen : List Column}

theorem eq_of_readBy {item : QueryItem} {positions : List Nat} {reader reader' : Reader}
    (h : item.ReadBy seen positions reader) (h' : item.ReadBy seen positions reader') :
    reader = reader' := by
  cases item with
  | scalar e type label =>
    obtain ⟨position, rfl, rfl⟩ := h
    obtain ⟨position', hpositions, rfl⟩ := h'
    cases hpositions
    rfl
  | entity graph =>
    obtain ⟨reader, rfl, hreader⟩ := h
    obtain ⟨reader', rfl, hreader'⟩ := h'
    rw [graph.eq_of_readBy hreader hreader']
  | subquery query label =>
    obtain ⟨position, rfl, rfl⟩ := h
    obtain ⟨position', hpositions, rfl⟩ := h'
    cases hpositions
    rfl

/-- Selected things that are read at given positions have one list of readers. -/
theorem eq_of_allReadBy {items : List QueryItem} {positions : List Nat}
    {readers readers' : List Reader} (h : AllReadBy seen items positions readers)
    (h' : AllReadBy seen items positions readers') : readers = readers' := by
  induction items generalizing seen positions readers readers' with
  | nil =>
    obtain ⟨-, rfl⟩ := h
    obtain ⟨-, rfl⟩ := h'
    rfl
  | cons item rest ih =>
    obtain ⟨own, below, reader, others, rfl, rfl, hown, hbelow⟩ := h
    obtain ⟨own', below', reader', others', hpositions, rfl, hown', hbelow'⟩ := h'
    have hlength := (length_of_readBy hown).symm.trans (length_of_readBy hown')
    obtain ⟨rfl, rfl⟩ := List.append_inj hpositions hlength
    rw [eq_of_readBy hown hown', ih hbelow hbelow']

end QueryItem

/-- A query is lowered to one block with one list of readers, as far as sharing in its own block is
settled. -/
theorem Query.LowersTo.unique {flat : Bool} {seen : List Column} {query : Query}
    {lowered lowered' : Lowered} (h : query.LowersTo flat seen lowered)
    (h' : query.LowersTo flat seen lowered') : lowered = lowered' := by
  obtain ⟨spec, readers⟩ := lowered
  obtain ⟨spec', readers'⟩ := lowered'
  obtain rfl : spec = spec' := h.spec_eq.trans h'.spec_eq.symm
  obtain rfl : readers = readers' := QueryItem.eq_of_allReadBy h.readers h'.readers
  rfl

/-! ### What is computed from selections one after the other -/

namespace QueryItem

theorem demandsAll_append (naming : Naming) (seen : List Column) (items more : List QueryItem) :
    demandsAll naming seen (items ++ more) =
      demandsAll naming seen items ++
        demandsAll naming (seen ++ items.flatMap columns) more := by
  induction items generalizing seen with
  | nil => simp [demandsAll]
  | cons item rest ih => simp [demandsAll, ih]

theorem faultAll?_append (shares : Bool) (naming : Naming) (seen : List Column)
    (items more : List QueryItem) :
    faultAll? shares naming seen (items ++ more) =
      (faultAll? shares naming seen items).or
        (faultAll? shares naming (seen ++ items.flatMap columns) more) := by
  induction items generalizing seen with
  | nil => simp [faultAll?]
  | cons item rest ih => simp [faultAll?, ih, Option.or_assoc]

end QueryItem

/-- More selections add tables at the end. -/
theorem Query.sources_prefix (items more : List QueryItem) (tables : List Table) :
    sources ⟨items, tables⟩ <+: sources ⟨items ++ more, tables⟩ := by
  rw [sources, sources, List.flatMap_append, List.filter_append, List.eraseDups_append]
  exact (List.prefix_append_right_inj _).mpr (List.prefix_append _ _)

/-! ### Readers from a ledger -/

namespace QueryItem

variable {seen : List Column} {readers : List Reader}

/-- `readers` read selected things at the positions that a ledger answers with. -/
def ReadFrom (ledger : Ledger) (seen : List Column) (items : List QueryItem)
    (readers : List Reader) : Prop :=
  AllReadBy seen items ((ledger.answers (demandsAll .first seen items)).map Selection.position)
    readers

theorem readFrom_cons_iff {ledger : Ledger} {item : QueryItem} {rest : List QueryItem} :
    ReadFrom ledger seen (item :: rest) readers ↔ ∃ reader others, readers = reader :: others ∧
      item.ReadBy seen ((ledger.answers (item.demands .first seen)).map Selection.position) reader ∧
      ReadFrom (ledger.noteAll (item.demands .first seen)) (seen ++ item.columns) rest others := by
  rw [ReadFrom, demandsAll, Ledger.answers_append, List.map_append]
  constructor
  · rintro ⟨own, below, reader, others, hpositions, rfl, hown, hbelow⟩
    have hlength : ((ledger.answers (item.demands .first seen)).map Selection.position).length =
        own.length := by
      rw [List.length_map, Ledger.length_answers, length_of_readBy hown]
    obtain ⟨rfl, rfl⟩ := List.append_inj hpositions hlength
    exact ⟨reader, others, rfl, hown, hbelow⟩
  · rintro ⟨reader, others, rfl, hown, hbelow⟩
    exact ⟨_, _, reader, others, rfl, rfl, hown, hbelow⟩

/-- Readers of things selected one after the other split into those of the first and those of the
last, which read what the ledger answers after the first. -/
theorem readFrom_append_iff {ledger : Ledger} {items more : List QueryItem} :
    ReadFrom ledger seen (items ++ more) readers ↔ ∃ own others, readers = own ++ others ∧
      ReadFrom ledger seen items own ∧
      ReadFrom (ledger.noteAll (demandsAll .first seen items)) (seen ++ items.flatMap columns) more
        others := by
  induction items generalizing ledger seen readers with
  | nil =>
    constructor
    · intro h
      exact ⟨[], readers, rfl, ⟨rfl, rfl⟩, by simpa [demandsAll] using h⟩
    · rintro ⟨own, others, rfl, ⟨-, rfl⟩, h⟩
      simpa [demandsAll] using h
  | cons item rest ih =>
    simp only [List.cons_append, readFrom_cons_iff, ih, demandsAll, Ledger.noteAll_append,
      List.flatMap_cons, List.append_assoc]
    constructor
    · rintro ⟨reader, -, rfl, hitem, own, others, rfl, hrest, hmore⟩
      exact ⟨reader :: own, others, rfl, ⟨reader, own, rfl, hitem, hrest⟩, hmore⟩
    · rintro ⟨-, others, rfl, ⟨reader, own, rfl, hitem, hrest⟩, hmore⟩
      exact ⟨reader, own ++ others, rfl, hitem, own, others, rfl, hrest, hmore⟩

/-- The reader of a selected thing reads the answers that are given after the things before it. -/
theorem ReadFrom.exists_split {ledger : Ledger} {before after : List QueryItem} {item : QueryItem}
    (h : ReadFrom ledger seen (before ++ item :: after) readers) :
    let ledger' := ledger.noteAll (demandsAll .first seen before)
    let seen' := seen ++ before.flatMap columns
    ∃ own reader others, readers = own ++ reader :: others ∧ ReadFrom ledger seen before own ∧
      item.ReadBy seen' ((ledger'.answers (item.demands .first seen')).map Selection.position)
        reader ∧
      ReadFrom (ledger'.noteAll (item.demands .first seen')) (seen' ++ item.columns) after
        others := by
  obtain ⟨own, rest, rfl, hbefore, hrest⟩ := readFrom_append_iff.mp h
  obtain ⟨reader, others, rfl, hitem, hafter⟩ := readFrom_cons_iff.mp hrest
  exact ⟨own, reader, others, rfl, hbefore, hitem, hafter⟩

theorem ReadFrom.length_eq {ledger : Ledger} {items : List QueryItem}
    (h : ReadFrom ledger seen items readers) : readers.length = items.length := by
  induction items generalizing ledger seen readers with
  | nil =>
    obtain ⟨-, rfl⟩ := h
    rfl
  | cons item rest ih =>
    obtain ⟨reader, others, rfl, -, hbelow⟩ := readFrom_cons_iff.mp h
    rw [List.length_cons, List.length_cons, ih hbelow]

end QueryItem

/-! ### The earlier selections of a longer query -/

/-- The fault in earlier selections is reported first. -/
theorem Query.fault?_append_of_ne_nil {items : List QueryItem} (h : items ≠ []) (shares : Bool)
    (naming : Naming) (seen : List Column) (more : List QueryItem) (tables : List Table) :
    fault? shares naming seen ⟨items ++ more, tables⟩ =
      (fault? shares naming seen ⟨items, tables⟩).or
        (QueryItem.faultAll? shares naming (seen ++ items.flatMap QueryItem.columns) more) := by
  have hitems : items.isEmpty = false := by simpa using h
  have happend : (items ++ more).isEmpty = false := by simp [h]
  simp only [fault?, hitems, happend, QueryItem.faultAll?_append, Bool.false_eq_true, if_false]

/-- `whole` was made for more selections than `part`, which was made for `count` of them: what was
selected for these is still where it was, from the same tables, and is read as before. -/
structure Lowered.Extends (whole part : Lowered) (count : Nat) : Prop where
  selections : part.spec.selections <+: whole.spec.selections
  tables : part.spec.tables <+: whole.spec.tables
  readers : part.readers = whole.readers.take count

theorem Query.LowersTo.extends_append {flat : Bool} {seen : List Column}
    {items more : List QueryItem} {tables : List Table} {part whole : Lowered}
    (hpart : LowersTo flat seen ⟨items, tables⟩ part)
    (hwhole : LowersTo flat seen ⟨items ++ more, tables⟩ whole) :
    whole.Extends part items.length := by
  have hdemands : demands .first seen ⟨items ++ more, tables⟩ =
      demands .first seen ⟨items, tables⟩ ++
        QueryItem.demandsAll .first (seen ++ items.flatMap QueryItem.columns) more := by
    rw [demands, demands, QueryItem.demandsAll_append]
  refine ⟨?_, ?_, ?_⟩
  · rw [hpart.spec_eq, hwhole.spec_eq, hdemands, Ledger.noteAll_append]
    exact Ledger.selections_prefix_noteAll _ _
  · rw [hpart.spec_eq, hwhole.spec_eq]
    exact sources_prefix items more tables
  · obtain ⟨own, others, hreaders, hitems, -⟩ := QueryItem.readFrom_append_iff.mp hwhole.readers
    -- The earlier demands are answered as they were, so their readers have the same positions.
    rw [hreaders, ← hitems.length_eq, List.take_left]
    exact QueryItem.eq_of_allReadBy hpart.readers hitems

/-- What a query selects stays as it is when the query selects more. Assumes: the query selects
something already. If it is refused, the longer query is refused for the same reason. If the longer
query is lowered, so is the query, to the beginning of the longer query's select list and tables and
with the readers that the longer query has for the same things. -/
theorem lower_append (config : Config) {items : List QueryItem} (h : items ≠ [])
    (more : List QueryItem) (tables : List Table) :
    (∀ failure, lower config ⟨items, tables⟩ = .error failure →
      lower config ⟨items ++ more, tables⟩ = .error failure) ∧
    ∀ whole, lower config ⟨items ++ more, tables⟩ = .ok whole →
      ∃ part, lower config ⟨items, tables⟩ = .ok part ∧ whole.Extends part items.length := by
  have hfault :=
    Query.fault?_append_of_ne_nil h config.shareSubquerySelections .first [] more tables
  constructor
  · intro failure hitems
    rw [lower_eq_error_iff] at hitems ⊢
    rw [hfault, Option.map_or, hitems, Option.some_or]
  · intro whole hwhole
    have hnone := (exists_lower_iff config _).mp ⟨whole, hwhole⟩
    rw [hfault, Option.or_eq_none_iff] at hnone
    obtain ⟨part, hpart⟩ := (exists_lower_iff config ⟨items, tables⟩).mpr hnone.1
    exact ⟨part, hpart, (Query.lowersTo_of_lower hpart).extends_append
      (Query.lowersTo_of_lower hwhole)⟩

/-- An entity that maps nothing is reported whatever comes after it, and people are read as before
when something is selected with them. -/
theorem lower_append_people :
    (∃ failure, lower .flat ⟨[.entity ⟨"Pet", none, ⟨"pet", "q"⟩, [], []⟩], []⟩ = .error failure ∧
      lower .flat ⟨.entity ⟨"Pet", none, ⟨"pet", "q"⟩, [], []⟩ :: Query.people.selections, []⟩ =
        .error failure) ∧
    ∃ part whole, lower .flat ⟨[.entity .person], []⟩ = .ok part ∧
      lower .flat Query.people = .ok whole ∧ whole.Extends part 1 := by
  constructor
  · have hpet := (lower_eq_error_iff .flat ⟨[.entity ⟨"Pet", none, ⟨"pet", "q"⟩, [], []⟩], []⟩
      (.fault (.emptyEntityGraph "Pet"))).mpr (by decide)
    exact ⟨_, hpet, (lower_append .flat (by simp) Query.people.selections []).1 _ hpet⟩
  · obtain ⟨whole, hwhole⟩ := Query.exists_lowered_people .flat
    have hpeople : Query.people = ⟨[.entity .person] ++ Query.people.selections.tail, []⟩ := rfl
    obtain ⟨part, hpart, hextends⟩ := (lower_append .flat (List.cons_ne_nil (.entity .person) [])
      Query.people.selections.tail []).2 whole (hpeople ▸ hwhole)
    exact ⟨part, whole, hpart, hwhole, hextends⟩

end ObjectSelect
