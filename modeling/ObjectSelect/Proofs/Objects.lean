import Mathlib.Data.List.Dedup
import ObjectSelect.Proofs.AttributeColumns
import ObjectSelect.Proofs.Cells

/-!
# The members of assembled objects

An object has one member for each name among its attributes and fetched objects. Under the name of a
fetched object it holds that object, and under any other name the value of the last attribute of the
name (`EntityGraph.Assembled`, `Query.assembled_of_fetched`). So what an entity maps and fetches is
all there just when no two of the names are equal: nothing refuses an attribute that repeats the
name of another one, or of an association, and its value is dropped.

The readers that lowering makes have each name once (`EntityReader.Keyed`). Members can then be
looked up by name (`EntityReader.Keyed.exists_members`), and the object that is reached along names
of associations is what the reader reached along the same names reads
(`EntityReader.exists_read_at?`).
-/

set_option autoImplicit false
set_option relaxedAutoImplicit false

namespace ObjectSelect

/-! ### Members by name -/

theorem Cell.getElem?_of_read {row : Row} {cell : Cell} {value : Value}
    (h : cell.read row = .ok value) : row[cell.position]? = some value := by
  unfold Cell.read at h
  cases hrow : row[cell.position]? with
  | none => simp [hrow] at h
  | some held =>
    by_cases haccepts : cell.type.accepts held = true
    · simpa [hrow, haccepts] using h
    · simp [hrow, haccepts] at h

namespace Value

theorem mem_keys_insertMember (name other : String) (value : Value)
    (members : List (String × Value)) :
    other ∈ (insertMember name value members).map Prod.fst ↔
      other = name ∨ other ∈ members.map Prod.fst := by
  induction members with
  | nil => simp [insertMember]
  | cons entry rest ih =>
    obtain ⟨first, held⟩ := entry
    rw [insertMember]
    split
    · rename_i hname
      simp [hname]
    · split
      · simp
      · rw [List.map_cons, List.mem_cons, ih, List.map_cons, List.mem_cons]
        exact or_left_comm

/-- Members stay in the order of their names. -/
theorem sorted_insertMember {members : List (String × Value)}
    (h : (members.map Prod.fst).Pairwise (· < ·)) (name : String) (value : Value) :
    ((insertMember name value members).map Prod.fst).Pairwise (· < ·) := by
  induction members with
  | nil => simp [insertMember]
  | cons entry rest ih =>
    obtain ⟨first, held⟩ := entry
    rw [List.map_cons, List.pairwise_cons] at h
    obtain ⟨hfirst, hrest⟩ := h
    rw [insertMember]
    split
    · rename_i hname
      subst hname
      exact List.pairwise_cons.mpr ⟨hfirst, hrest⟩
    · rename_i hname
      split
      · rename_i hlt
        refine List.pairwise_cons.mpr ⟨fun other hother ↦ ?_,
          List.pairwise_cons.mpr ⟨hfirst, hrest⟩⟩
        rcases List.mem_cons.mp hother with rfl | hother
        · exact hlt
        · exact String.lt_trans hlt (hfirst other hother)
      · rename_i hlt
        have hfirstName : first < name :=
          String.not_le.mp fun hle ↦ hname (String.le_antisymm hle (String.not_lt.mp hlt))
        refine List.pairwise_cons.mpr ⟨fun other hother ↦ ?_, ih hrest⟩
        rcases (mem_keys_insertMember ..).mp hother with rfl | hother
        · exact hfirstName
        · exact hfirst other hother

theorem sorted_keys_insertAll_nil (entries : List (String × Value)) :
    ((insertAll [] entries).map Prod.fst).Pairwise (· < ·) := by
  induction entries using List.reverseRecOn with
  | nil => exact List.Pairwise.nil
  | append_singleton rest entry ih =>
    rw [insertAll_append, insertAll_cons, insertAll_nil]
    exact sorted_insertMember ih entry.1 entry.2

/-- What is reached through members of the given names. -/
def at? : List String → Value → Option Value
  | [], value => some value
  | name :: names, .object members => (members.lookup name).bind (at? names)
  | _ :: _, _ => none

end Value

namespace Assoc

variable {α : Type}

/-- Where each key is there once it does not matter from which end it is looked up. -/
theorem lookup_reverse {entries : List (String × α)} (h : (entries.map Prod.fst).Nodup)
    (name : String) : entries.reverse.lookup name = entries.lookup name := by
  cases hlookup : entries.lookup name with
  | some a =>
    refine lookup_eq_some_of_mem ?_ (List.mem_reverse.mpr (mem_of_lookup hlookup))
    rwa [List.map_reverse, List.nodup_reverse]
  | none =>
    rw [List.lookup_eq_none_iff] at hlookup ⊢
    exact fun entry hentry ↦ hlookup entry (List.mem_reverse.mp hentry)

end Assoc

section

variable {α : Type} {read : α → Except Fault Value} {entries : List (String × α)}
  {members : List (String × Value)}

theorem Members.map_fst (h : Members read entries members) :
    entries.map Prod.fst = members.map Prod.fst := by
  rw [← List.forall₂_eq_eq_eq, List.forall₂_map_left_iff, List.forall₂_map_right_iff]
  exact h.imp fun entry member hmember ↦ hmember.1

/-- What is found under a name gives the member that is found under it. -/
theorem Members.exists_lookup (h : Members read entries members) {name : String} {a : α}
    (hlookup : entries.lookup name = some a) :
    ∃ value, read a = .ok value ∧ members.lookup name = some value := by
  induction h with
  | nil => simp at hlookup
  | @cons entry member _ _ hmember _ ih =>
    rw [List.lookup_cons, hmember.1] at hlookup
    rw [List.lookup_cons]
    cases hname : name == member.1 with
    | true =>
      obtain rfl : entry.2 = a := by simpa [hname] using hlookup
      exact ⟨member.2, hmember.2, rfl⟩
    | false => exact ih (by simpa [hname] using hlookup)

end

theorem lengths_eq_iff_nodup {keys names : List String} (hkeys : keys.Nodup)
    (hmem : ∀ name, name ∈ keys ↔ name ∈ names) : keys.length = names.length ↔ names.Nodup := by
  have hperm : keys.Perm names.dedup := by
    rw [List.perm_ext_iff_of_nodup hkeys (List.nodup_dedup names)]
    simpa using hmem
  rw [hperm.length_eq, ← List.dedup_eq_self]
  exact ⟨(List.dedup_sublist names).eq_of_length, fun h ↦ by rw [h]⟩

/-! ### Objects by name -/

namespace EntityReader

mutual

/-- A reader has each name once, and so do the readers of what it fetches. -/
def Keyed : EntityReader → Prop
  | ⟨_, attributes, fetches⟩ =>
    (attributes.map Prod.fst).Nodup ∧ (fetches.map Prod.fst).Nodup ∧ AllKeyed fetches
  termination_by structural reader => reader

/-- Readers have each name once. -/
def AllKeyed : List (String × EntityReader) → Prop
  | [] => True
  | (_, reader) :: rest => reader.Keyed ∧ AllKeyed rest
  termination_by structural fetches => fetches

end

theorem AllKeyed.keyed_of_mem {fetches : List (String × EntityReader)} (h : AllKeyed fetches)
    {name : String} {reader : EntityReader} (hmem : (name, reader) ∈ fetches) : reader.Keyed := by
  induction fetches with
  | nil => cases hmem
  | cons entry rest ih =>
    rw [AllKeyed] at h
    rcases List.mem_cons.mp hmem with rfl | hmem
    · exact h.1
    · exact ih h.2 hmem

/-- An object has its names in order, each once. Under a name it holds what is fetched under the
name, or else the attribute of the name. -/
theorem Keyed.exists_members {row : Row} {reader : EntityReader} {value : Value}
    (h : reader.Keyed) (hread : reader.read row = .ok value) :
    ∃ members own fetched, value = .object members ∧
      (members.map Prod.fst).Pairwise (· < ·) ∧
      Members (Cell.read row) reader.attributes own ∧ Members (read row) reader.fetches fetched ∧
      ∀ name, members.lookup name = (fetched.lookup name).or (own.lookup name) := by
  obtain ⟨own, fetched, hown, hfetched, rfl⟩ := (read_eq_ok_iff row reader value).mp hread
  obtain ⟨path, attributes, fetches⟩ := reader
  rw [Keyed] at h
  obtain ⟨hattributes, hfetches, -⟩ := h
  refine ⟨_, own, fetched, rfl, Value.sorted_keys_insertAll_nil _, hown, hfetched, fun name ↦ ?_⟩
  rw [Value.lookup_insertAll_nil, List.reverse_append, List.lookup_append,
    Assoc.lookup_reverse (hfetched.map_fst ▸ hfetches),
    Assoc.lookup_reverse (hown.map_fst ▸ hattributes)]

/-- Going along names of associations and reading may be done in either order. -/
theorem exists_read_at? {row : Row} {names : List String} {reader below : EntityReader}
    {value : Value} (h : reader.Keyed) (hread : reader.read row = .ok value)
    (hbelow : reader.at? names = some below) :
    ∃ object, below.read row = .ok object ∧ value.at? names = some object ∧ below.Keyed := by
  induction names generalizing reader value with
  | nil =>
    obtain rfl : reader = below := by simpa [at?] using hbelow
    exact ⟨value, hread, rfl, h⟩
  | cons name names ih =>
    obtain ⟨child, hchild, hbelow⟩ := Option.bind_eq_some_iff.mp hbelow
    obtain ⟨members, own, fetched, rfl, -, -, hfetched, hlookup⟩ := h.exists_members hread
    obtain ⟨object, hobject, hmember⟩ := hfetched.exists_lookup hchild
    have hkeyed : child.Keyed := by
      obtain ⟨path, attributes, fetches⟩ := reader
      rw [Keyed] at h
      exact h.2.2.keyed_of_mem (Assoc.mem_of_lookup hchild)
    obtain ⟨value, hvalue, hat, hbelowKeyed⟩ := ih hkeyed hobject hbelow
    refine ⟨value, hvalue, ?_, hbelowKeyed⟩
    rw [Value.at?, hlookup, hmember]
    exact hat

end EntityReader

/-! ### The objects of entities -/

namespace Attribute

theorem map_fst_cells {attributes : List Attribute} {positions : List Nat}
    (h : positions.length = attributes.length) :
    (cells attributes positions).map Prod.fst = attributes.map (·.name) := by
  induction attributes generalizing positions with
  | nil => simp [cells]
  | cons attr rest ih =>
    cases positions with
    | nil => simp at h
    | cons position positions =>
      rw [List.map_cons, ← ih (Nat.succ.inj h)]
      rfl

end Attribute

namespace EntityGraph

theorem FetchesReadBy.map_fst {node : FetchNode} {fetches : List (String × EntityGraph)}
    {positions : List Nat} {readers : List (String × EntityReader)}
    (h : FetchesReadBy node fetches positions readers) :
    readers.map Prod.fst = fetches.map Prod.fst := by
  induction fetches generalizing positions readers with
  | nil =>
    obtain ⟨-, rfl⟩ := h
    rfl
  | cons entry rest ih =>
    obtain ⟨-, below, reader, others, -, rfl, -, hbelow⟩ := h
    rw [List.map_cons, List.map_cons, ih hbelow]

mutual

/-- Lowering makes readers that have each name once. -/
theorem keyed_of_readBy : ∀ (graph : EntityGraph) {node : FetchNode} {positions : List Nat}
    {reader : EntityReader}, graph.ReadBy node positions reader → reader.Keyed
  | ⟨_, _, _, attributes, fetches⟩, node, _, ⟨path, cells, readers⟩ => by
    rw [ReadBy, EntityReader.Keyed]
    rintro ⟨hnodup, own, below, -, -, -, rfl, hbelow⟩
    exact ⟨Assoc.nodup_keys_putAll_nil _, FetchesReadBy.map_fst hbelow ▸ hnodup,
      allKeyed_of_fetchesReadBy fetches hbelow⟩
  termination_by structural graph => graph

theorem allKeyed_of_fetchesReadBy : ∀ (fetches : List (String × EntityGraph)) {node : FetchNode}
    {positions : List Nat} {readers : List (String × EntityReader)},
    FetchesReadBy node fetches positions readers → EntityReader.AllKeyed readers
  | [], node, _, _ => by
    rw [FetchesReadBy]
    rintro ⟨-, rfl⟩
    trivial
  | (_, graph) :: rest, node, _, _ => by
    rw [FetchesReadBy]
    rintro ⟨own, below, reader, others, -, rfl, hown, hbelow⟩
    exact ⟨keyed_of_readBy graph hown, allKeyed_of_fetchesReadBy rest hbelow⟩
  termination_by structural fetches => fetches

end

/-- The names under which an entity shows its attributes and what it fetches. -/
def memberNames (graph : EntityGraph) : List String :=
  graph.attributes.map (·.name) ++ graph.fetches.map Prod.fst

/-- `members` are those of the object of an entity that is read from a row by `reader`. -/
structure Assembled (graph : EntityGraph) (columns : List Column) (spec : QuerySpec) (row : Row)
    (reader : EntityReader) (members : List (String × Value)) : Prop where
  /-- There is a member for each name of an attribute or of a fetched object, and no other. -/
  mem_names_iff : ∀ name, name ∈ members.map Prod.fst ↔ name ∈ graph.memberNames
  /-- There is one for each attribute and each fetched object just when all their names differ. -/
  length_eq_iff : members.length = graph.attributes.length + graph.fetches.length ↔
    graph.memberNames.Nodup
  /-- Under the name of a fetched object there is what its reader reads. -/
  ofFetched : ∀ name ∈ graph.fetches.map Prod.fst, ∃ below object,
    reader.fetches.lookup name = some below ∧ below.read row = .ok object ∧
      members.lookup name = some object
  /-- Under any other name there is the value at the position of the last attribute of the name. -/
  ofAttribute : ∀ pre attr post, graph.attributes = pre ++ attr :: post →
    attr.name ∉ post.map (·.name) → attr.name ∉ graph.fetches.map Prod.fst →
    ∃ cell item value, reader.attributes.lookup attr.name = some cell ∧
      spec.selections[cell.position]? = some item ∧
      item.expr = .column (Naming.first columns (attr.column graph.table.correlation)) ∧
      row[cell.position]? = some value ∧ members.lookup attr.name = some value

/-- The object of an entity is assembled from its reader. -/
theorem exists_assembled {graph : EntityGraph} {columns : List Column} {spec : QuerySpec}
    {row : Row} {node : FetchNode} {positions : List Nat} {reader : EntityReader} {value : Value}
    (hreader : graph.ReadBy node positions reader)
    (hplaces : List.Forall₂ (fun site position ↦ ∃ item, spec.selections[position]? = some item ∧
      item.expr = .column (Naming.first columns site.2)) (graph.columnsAt node) positions)
    (hread : reader.read row = .ok value) :
    ∃ members, value = .object members ∧ graph.Assembled columns spec row reader members := by
  obtain ⟨members, own, fetched, rfl, hsorted, hown, hfetched, hlookup⟩ :=
    (keyed_of_readBy graph hreader).exists_members hread
  obtain ⟨entity, label, table, attributes, fetches⟩ := graph
  rw [ReadBy] at hreader
  obtain ⟨-, places, below, rfl, hlength, -, hcells, hbelow⟩ := hreader
  have hfetchedNames : fetched.map Prod.fst = fetches.map Prod.fst := by
    rw [← hfetched.map_fst, FetchesReadBy.map_fst hbelow]
  have hownNames : ∀ name, name ∈ own.map Prod.fst ↔ name ∈ attributes.map (·.name) := by
    intro name
    rw [← hown.map_fst, hcells, Assoc.keys_putAll_nil, List.mem_eraseDups,
      Attribute.map_fst_cells hlength]
  have hmem : ∀ name, name ∈ members.map Prod.fst ↔
      name ∈ attributes.map (·.name) ++ fetches.map Prod.fst := by
    intro name
    rw [Assoc.mem_keys_iff_lookup, hlookup, Option.isSome_or, Bool.or_eq_true,
      ← Assoc.mem_keys_iff_lookup, ← Assoc.mem_keys_iff_lookup, hfetchedNames, hownNames,
      List.mem_append, or_comm]
  refine ⟨members, rfl, hmem, ?_, ?_, ?_⟩
  · have hlengths := lengths_eq_iff_nodup (hsorted.imp String.ne_of_lt) hmem
    rwa [List.length_map, List.length_append, List.length_map, List.length_map] at hlengths
  · intro name hname
    rw [← FetchesReadBy.map_fst hbelow, Assoc.mem_keys_iff_lookup] at hname
    obtain ⟨child, hchild⟩ := Option.isSome_iff_exists.mp hname
    obtain ⟨object, hobject, hmember⟩ := hfetched.exists_lookup hchild
    exact ⟨child, object, hchild, hobject, by rw [hlookup, hmember]; rfl⟩
  · intro pre attr post hattr hlast hnot
    rw [columnsAt] at hplaces
    obtain ⟨hattributes, -⟩ :=
      forall₂_append_of_length_eq (by rw [List.length_map, hlength]) hplaces
    rw [List.forall₂_map_left_iff] at hattributes
    obtain ⟨cell, hcell, item, hitem, hexpr⟩ := Attribute.exists_cell hattributes hattr hlast
    rw [← hcells] at hcell
    obtain ⟨value, hvalue, hmember⟩ := hown.exists_lookup hcell
    have hunfetched : fetched.lookup attr.name = none := by
      rwa [← Option.not_isSome_iff_eq_none, ← Assoc.mem_keys_iff_lookup, hfetchedNames]
    exact ⟨cell, item, value, hcell, hitem, hexpr, Cell.getElem?_of_read hvalue,
      by rw [hlookup, hunfetched, hmember]; rfl⟩

end EntityGraph

namespace Query

/-- The reader of a selected entity reads each of its columns at the position of a selection of the
first column that the query maps under the same key. -/
theorem LowersTo.exists_entityReader {flat : Bool} {query : Query} {lowered : Lowered}
    (h : query.LowersTo flat [] lowered) {i : Nat} {graph : EntityGraph}
    (hitem : query.selections[i]? = some (.entity graph)) :
    ∃ reader positions, lowered.readers[i]? = some (.entity reader) ∧
      graph.ReadBy graph.rootNode positions reader ∧
      List.Forall₂ (fun site position ↦ ∃ item, lowered.spec.selections[position]? = some item ∧
        item.expr = .column (Naming.first query.columns site.2))
        (graph.columnsAt graph.rootNode) positions := by
  have hplaces := h.forall₂_places
  obtain ⟨selections, tables⟩ := query
  obtain ⟨before, positions, -, rest, hreader, ⟨reader, rfl, hread⟩, hrow, hcolumns⟩ :=
    QueryItem.exists_readBy h.readers hplaces hitem
  rw [QueryItem.demands, List.forall₂_map_left_iff] at hrow
  have hseen : columns ⟨selections, tables⟩ = before ++ graph.columns ++ rest := hcolumns
  refine ⟨reader, positions, hreader, hread, ?_⟩
  refine ((List.forall₂_and_left _ _).mpr ⟨fun site hsite ↦ hsite, hrow⟩).imp ?_
  rintro site position ⟨hsite, item, hplace, hexpr⟩
  have hown : site.2 ∈ before ++ graph.columns :=
    List.mem_append_right before (List.mem_map_of_mem hsite)
  refine ⟨item, hplace, ?_⟩
  rw [hseen, Naming.first_append_of_mem hown]
  exact (Expr.beq_column_iff _ _).mp hexpr

/-- What the object of an entity holds. Assumes: a query is lowered, a row is read, an entity is
selected, and a graph is fetched with the entity at any depth or is the entity itself. Then the
object is found in what is read, and its reader in the readers, along the names of the associations,
and the object is assembled by that reader (`EntityGraph.Assembled`). So it has a member for each
attribute and each fetched object just when no two of their names are equal. -/
theorem assembled_of_fetched {config : Config} {query : Query} {lowered : Lowered}
    (hlower : lower config query = .ok lowered) {row : Row} {values : List Value}
    (hread : lowered.readRow row = .ok values) {i : Nat} {graph : EntityGraph}
    (hitem : query.selections[i]? = some (.entity graph)) {names : List String}
    {fetched : EntityGraph} (hfetched : graph.FetchedAt names fetched) :
    ∃ value members reader below, values[i]? = some value ∧
      value.at? names = some (.object members) ∧ lowered.readers[i]? = some (.entity reader) ∧
      reader.at? names = some below ∧
      fetched.Assembled query.columns lowered.spec row below members := by
  obtain ⟨reader, positions, hreader, hgraph, hplaces⟩ :=
    (lowersTo_of_lower hlower).exists_entityReader hitem
  obtain ⟨value, hvalue, hobject⟩ : ∃ value, values[i]? = some value ∧
      reader.read row = .ok value := by
    have hvalues := mapM_eq_ok_iff.mp hread
    obtain ⟨hi, hget⟩ := List.getElem?_eq_some_iff.mp hreader
    have hi' := hvalues.length_eq ▸ hi
    have hobject := hvalues.get hi hi'
    rw [List.get_eq_getElem, hget] at hobject
    exact ⟨_, List.getElem?_eq_getElem hi', hobject⟩
  obtain ⟨node, own, below, hat, hbelow, hown⟩ := hfetched.exists_readBy hgraph hplaces
  obtain ⟨object, hbelowRead, hobjectAt, -⟩ :=
    EntityReader.exists_read_at? (EntityGraph.keyed_of_readBy graph hgraph) hobject hat
  obtain ⟨members, rfl, hassembled⟩ := EntityGraph.exists_assembled hbelow hown hbelowRead
  exact ⟨value, members, reader, below, hvalue, hobjectAt, hreader, hat, hassembled⟩

/-- The reader of a home whose city is at the second position. -/
def homeReader : EntityReader :=
  ⟨⟨"Person", none, ["home"]⟩, [("city", ⟨1, .string⟩)], []⟩

/-- What a person with the home is lowered to. -/
def loweredPerson : Lowered :=
  ⟨⟨false, [⟨0, 1, .column ⟨"p", "name", false, .string⟩, .string⟩,
      ⟨1, 2, .column ⟨"a", "lower(city)", true, .string⟩, .string⟩],
      [⟨"person", "p"⟩, ⟨"address", "a"⟩]⟩,
    [.entity ⟨.root "Person" none, [("name", ⟨0, .string⟩)], [("home", homeReader)]⟩]⟩

theorem home_assembled : ∃ value members,
    lower .flat ⟨[.entity .person], []⟩ = .ok loweredPerson ∧
    loweredPerson.readRow [.string "Ada", .string "london"] = .ok [value] ∧
    value.at? ["home"] = some (.object members) ∧ members.length = 1 := by
  have hlower : lower .flat ⟨[.entity .person], []⟩ = .ok loweredPerson := rfl
  have hread : loweredPerson.readRow [.string "Ada", .string "london"] = .ok
      [.object [("home", .object [("city", .string "london")]), ("name", .string "Ada")]] := rfl
  have hperson : [QueryItem.entity .person][0]? = some (.entity .person) := rfl
  have hhome : EntityGraph.person.FetchedAt ["home"] .home := .under List.mem_cons_self (.here _)
  obtain ⟨value, members, _, _, hvalue, hobject, -, -, hassembled⟩ :=
    assembled_of_fetched hlower hread hperson hhome
  cases hvalue
  exact ⟨_, members, hlower, hread, hobject, hassembled.length_eq_iff.mpr (by decide)⟩

/-- A person with an attribute of the name of the association that is fetched. -/
def personWithClash : EntityGraph :=
  ⟨"Person", none, ⟨"person", "p1_0"⟩, [⟨"home", "home_id", .int, false⟩],
    [("home", ⟨"Address", none, ⟨"address", "a1_0"⟩, [⟨"city", "city", .string, false⟩], []⟩)]⟩

/-- An attribute and a fetched object of one name are both selected, and only the fetched object is
in what is read. -/
theorem attribute_lost_to_fetch : ∃ lowered,
    lower .flat ⟨[.entity personWithClash], []⟩ = .ok lowered ∧
    lowered.readRow [.int 1, .string "london"] =
      .ok [.object [("home", .object [("city", .string "london")])]] ∧
    personWithClash.attributes.length + personWithClash.fetches.length = 2 :=
  ⟨⟨⟨false, [⟨0, 1, .column ⟨"p1_0", "home_id", false, .int⟩, .int⟩,
        ⟨1, 2, .column ⟨"a1_0", "city", false, .string⟩, .string⟩],
        [⟨"person", "p1_0"⟩, ⟨"address", "a1_0"⟩]⟩,
      [.entity ⟨.root "Person" none, [("home", ⟨0, .int⟩)], [("home", homeReader)]⟩]⟩,
    rfl, rfl, rfl⟩

end Query

end ObjectSelect
