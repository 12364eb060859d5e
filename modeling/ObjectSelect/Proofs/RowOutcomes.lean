import ObjectSelect.Proofs.Objects
import ObjectSelect.Proofs.ReadingFaults

/-!
# The outcome of reading a row

Readers may be made by lowering or by hand; all that is asked of them is that each object has its
names once. Their cells are visited in order: reader by reader, and in an object the attributes
before the fetched objects. A row is refused just when it fails a cell, and the fault is that of the
first cell it fails (`Lowered.readRow_stops_at_first`). An attribute that a fetched object of the
same name will replace is visited like any other.

`EntityReader.Describes` says which object a reader gives for a row, name by name and without the
order in which members are inserted. It holds of every object that is read
(`EntityReader.describes_of_read`). What the row holds at positions that no cell has plays no part
(`Lowered.readRow_congr`).
-/

set_option autoImplicit false
set_option relaxedAutoImplicit false

namespace ObjectSelect

/-- A cell is read alike from rows of one length that agree at its position. -/
theorem Cell.read_congr {row other : Row} {cell : Cell} (hlength : other.length = row.length)
    (hvalue : other[cell.position]? = row[cell.position]?) : cell.read other = cell.read row := by
  unfold read
  rw [hvalue, hlength]

/-! ### Which object is read -/

namespace EntityReader

mutual

/-- The object that a reader gives for a row: its members have the names of the attributes and of
the fetched objects, each once and in order. Under the name of a fetched object there is the object
that its reader gives, and under every other name the value at the position of the attribute. -/
def Describes (row : Row) : EntityReader → Value → Prop
  | ⟨_, attributes, fetches⟩, value =>
    ∃ members, value = .object members ∧ (members.map Prod.fst).Pairwise (· < ·) ∧
      (∀ name, name ∈ members.map Prod.fst ↔
        name ∈ attributes.map Prod.fst ∨ name ∈ fetches.map Prod.fst) ∧
      DescribesFetched row fetches members ∧
      ∀ name cell, (name, cell) ∈ attributes → name ∉ fetches.map Prod.fst →
        ∃ held, row[cell.position]? = some held ∧ members.lookup name = some held
  termination_by structural reader => reader

/-- Each fetched object is the member of its name. -/
def DescribesFetched (row : Row) : List (String × EntityReader) → List (String × Value) → Prop
  | [], _ => True
  | (name, reader) :: rest, members =>
    (∃ object, members.lookup name = some object ∧ reader.Describes row object) ∧
      DescribesFetched row rest members
  termination_by structural fetches => fetches

end

variable {row other : Row}

mutual

/-- What is read is the object that the reader describes. -/
theorem describes_of_read : ∀ (reader : EntityReader) {value : Value}, reader.Keyed →
    reader.read row = .ok value → reader.Describes row value
  | ⟨path, attributes, fetches⟩, value, hkeyed, hread => by
    obtain ⟨members, own, fetched, rfl, hsorted, hown, hfetched, hlookup⟩ :=
      hkeyed.exists_members hread
    rw [Keyed] at hkeyed
    obtain ⟨hattributes, hfetches, hbelow⟩ := hkeyed
    refine ⟨members, rfl, hsorted, ?_, ?_, ?_⟩
    · intro name
      rw [hown.map_fst, hfetched.map_fst, Assoc.mem_keys_iff_lookup, Assoc.mem_keys_iff_lookup,
        Assoc.mem_keys_iff_lookup, hlookup, Option.isSome_or, Bool.or_eq_true, or_comm]
    · refine describesFetched_of_read fetches hbelow fun entry hentry ↦ ?_
      obtain ⟨object, hobject, hmember⟩ :=
        hfetched.exists_lookup (Assoc.lookup_eq_some_of_mem hfetches hentry)
      exact ⟨object, hobject, by rw [hlookup, hmember, Option.some_or]⟩
    · intro name cell hmem hname
      obtain ⟨held, hheld, hmember⟩ :=
        hown.exists_lookup (Assoc.lookup_eq_some_of_mem hattributes hmem)
      have hunfetched : fetched.lookup name = none := by
        rwa [← Option.not_isSome_iff_eq_none, ← Assoc.mem_keys_iff_lookup, ← hfetched.map_fst]
      refine ⟨held, Cell.getElem?_of_read hheld, ?_⟩
      rw [hlookup, hunfetched, Option.none_or, hmember]
  termination_by structural reader => reader

theorem describesFetched_of_read : ∀ (fetches : List (String × EntityReader))
    {members : List (String × Value)}, AllKeyed fetches →
    (∀ entry ∈ fetches, ∃ object, entry.2.read row = .ok object ∧
      members.lookup entry.1 = some object) → DescribesFetched row fetches members
  | [], members, _, _ => trivial
  | (name, reader) :: rest, members, hkeyed, hread => by
    rw [AllKeyed] at hkeyed
    rw [List.forall_mem_cons] at hread
    obtain ⟨⟨object, hobject, hmember⟩, hrest⟩ := hread
    exact ⟨⟨object, hmember, describes_of_read reader hkeyed.1 hobject⟩,
      describesFetched_of_read rest hkeyed.2 hrest⟩
  termination_by structural fetches => fetches

end

theorem readAttributes_congr {attributes : List (String × Cell)}
    (h : ∀ cell ∈ attributes.map Prod.snd, cell.read other = cell.read row)
    (members : List (String × Value)) :
    readAttributes other attributes members = readAttributes row attributes members := by
  induction attributes generalizing members with
  | nil => rfl
  | cons entry rest ih =>
    rw [List.map_cons, List.forall_mem_cons] at h
    simp only [readAttributes, h.1, ih h.2]

mutual

/-- An object is read alike from rows from which each of its cells is. -/
theorem read_congr : ∀ reader : EntityReader,
    (∀ cell ∈ reader.cells, cell.read other = cell.read row) → reader.read other = reader.read row
  | ⟨path, attributes, fetches⟩, h => by
    rw [cells, List.forall_mem_append] at h
    simp only [read, readAttributes_congr h.1, readFetches_congr fetches h.2]
  termination_by structural reader => reader

theorem readFetches_congr : ∀ (fetches : List (String × EntityReader)),
    (∀ cell ∈ fetchedCells fetches, cell.read other = cell.read row) →
    ∀ members, readFetches other fetches members = readFetches row fetches members
  | [], _, members => rfl
  | (name, reader) :: rest, h, members => by
    rw [fetchedCells, List.forall_mem_append] at h
    simp only [readFetches, read_congr reader h.1, readFetches_congr rest h.2]
  termination_by structural fetches => fetches

end

end EntityReader

namespace Reader

/-- What a reader gives for a row: the value at its position, or the object that it describes. -/
def Describes (row : Row) : Reader → Value → Prop
  | basic cell _, value => row[cell.position]? = some value
  | entity reader, value => reader.Describes row value

theorem describes_of_read {row : Row} {reader : Reader} {value : Value}
    (hkeyed : ∀ inner, reader = .entity inner → inner.Keyed)
    (hread : reader.read row = .ok value) : reader.Describes row value := by
  cases reader with
  | basic cell label => exact Cell.getElem?_of_read hread
  | entity reader => exact reader.describes_of_read (hkeyed reader rfl) hread

theorem read_congr {row other : Row} {reader : Reader}
    (h : ∀ cell ∈ reader.cells, cell.read other = cell.read row) :
    reader.read other = reader.read row := by
  cases reader with
  | basic cell label => exact h cell (List.mem_singleton_self cell)
  | entity reader => exact reader.read_congr h

end Reader

/-! ### The outcome -/

namespace Lowered

variable {lowered : Lowered} {row other : Row}

/-- A row is refused for the first of the cells that it fails. -/
theorem readRow_eq_error_iff (lowered : Lowered) (row : Row) (fault : Fault) :
    lowered.readRow row = .error fault ↔
      ∃ before cell after, lowered.readers.flatMap Reader.cells = before ++ cell :: after ∧
        (∀ earlier ∈ before, earlier.Fits row) ∧ cell.Fails row fault := by
  rw [(lowered.stops_readRow row).error_iff, List.findSome?_eq_some_iff]
  simp only [Cell.fault?_eq_none_iff, Cell.fault?_eq_some_iff]
  constructor
  · rintro ⟨before, cell, after, hcells, hfails, hbefore⟩
    exact ⟨before, cell, after, hcells, hbefore, hfails⟩
  · rintro ⟨before, cell, after, hcells, hbefore, hfails⟩
    exact ⟨before, cell, after, hcells, hfails, hbefore⟩

theorem exists_readRow_iff_fits (lowered : Lowered) (row : Row) :
    (∃ values, lowered.readRow row = .ok values) ↔
      ∀ cell ∈ lowered.readers.flatMap Reader.cells, cell.Fits row := by
  simp only [exists_readRow_iff, Cell.exists_read_iff, Cell.Fits]

/-- What is read is what the readers describe, one after the other. -/
theorem describes_of_readRow (hkeyed : ∀ reader, .entity reader ∈ lowered.readers → reader.Keyed)
    {values : List Value} (hread : lowered.readRow row = .ok values) :
    List.Forall₂ (Reader.Describes row) lowered.readers values := by
  refine ((List.forall₂_and_left _ _).mpr
    ⟨fun reader hreader ↦ hreader, mapM_eq_ok_iff.mp hread⟩).imp ?_
  rintro reader value ⟨hreader, hvalue⟩
  refine Reader.describes_of_read ?_ hvalue
  rintro inner rfl
  exact hkeyed inner hreader

/-- Rows of one length that agree at the positions of the readers are read alike. -/
theorem readRow_congr (hlength : other.length = row.length)
    (hvalues : ∀ position ∈ lowered.readers.flatMap Reader.positions,
      other[position]? = row[position]?) : lowered.readRow other = lowered.readRow row := by
  rw [Reader.flatMap_positions, List.forall_mem_map] at hvalues
  refine mapM_congr_of_mem fun reader hreader ↦ Reader.read_congr fun cell hcell ↦ ?_
  exact Cell.read_congr hlength (hvalues cell (List.mem_flatMap_of_mem hreader hcell))

/-- What comes of reading a row. Assumes: readers, made by lowering or by hand, in whose objects
each name stands once. The cells are visited in the order of the positions of the readers. The row
is refused just when it does not fit some cell, and then for the first one: because it ends before
that cell's position, or for the value it has there. If it fits all cells, each reader gives the
value or the object that it describes. Two rows of one length that agree at the positions of the
readers have the same outcome. -/
theorem readRow_stops_at_first (lowered : Lowered) (row : Row)
    (hkeyed : ∀ reader, .entity reader ∈ lowered.readers → reader.Keyed) :
    lowered.readers.flatMap Reader.positions =
        (lowered.readers.flatMap Reader.cells).map Cell.position ∧
    ((∃ fault, lowered.readRow row = .error fault) ↔
      ∃ cell ∈ lowered.readers.flatMap Reader.cells, ¬ cell.Fits row) ∧
    (∀ fault, lowered.readRow row = .error fault ↔
      ∃ before cell after, lowered.readers.flatMap Reader.cells = before ++ cell :: after ∧
        (∀ earlier ∈ before, earlier.Fits row) ∧ cell.Fails row fault) ∧
    ((∀ cell ∈ lowered.readers.flatMap Reader.cells, cell.Fits row) →
      ∃ values, lowered.readRow row = .ok values ∧
        List.Forall₂ (Reader.Describes row) lowered.readers values) ∧
    ∀ other : Row, other.length = row.length →
      (∀ position ∈ lowered.readers.flatMap Reader.positions, other[position]? = row[position]?) →
      lowered.readRow other = lowered.readRow row := by
  refine ⟨Reader.flatMap_positions lowered.readers, ?_, lowered.readRow_eq_error_iff row, ?_,
    fun other ↦ readRow_congr⟩
  · have hrefused : (∃ fault, lowered.readRow row = .error fault) ↔
        ¬ ∃ values, lowered.readRow row = .ok values := by
      cases lowered.readRow row <;> simp
    rw [hrefused, exists_readRow_iff_fits]
    simp only [not_forall, exists_prop]
  · intro hfits
    obtain ⟨values, hread⟩ := (lowered.exists_readRow_iff_fits row).mpr hfits
    exact ⟨values, hread, describes_of_readRow hkeyed hread⟩

/-- A person with an attribute whose name a fetched object takes, and a number read beside it. -/
def personAndNumber : Lowered :=
  ⟨.ofTables [], [.entity ⟨.root "Person" none, [("id", ⟨0, .int⟩), ("home", ⟨2, .int⟩)],
    [("home", Query.homeReader)]⟩, .basic ⟨3, .int⟩ none]⟩

/-- A row that fails the person's attribute, the city and the number is refused for the attribute,
although nothing shows it. -/
theorem personAndNumber_outcomes :
    (∀ reader, .entity reader ∈ personAndNumber.readers → reader.Keyed) ∧
    personAndNumber.readRow [.int 1, .int 5, .string "london"] =
      .error (.typeMismatch 2 "Int") ∧
    ∃ values, personAndNumber.readRow [.int 1, .string "london", .int 5, .null] = .ok values ∧
      List.Forall₂ (Reader.Describes [.int 1, .string "london", .int 5, .null])
        personAndNumber.readers values := by
  have hkeyed : ∀ reader, .entity reader ∈ personAndNumber.readers → reader.Keyed := by
    intro reader hreader
    obtain rfl : reader = ⟨.root "Person" none, [("id", ⟨0, .int⟩), ("home", ⟨2, .int⟩)],
        [("home", Query.homeReader)]⟩ := by
      simpa [personAndNumber] using hreader
    exact ⟨by decide, by decide, ⟨by decide, by decide, trivial⟩, trivial⟩
  have hcells : personAndNumber.readers.flatMap Reader.cells =
      [⟨0, .int⟩, ⟨2, .int⟩, ⟨1, .string⟩, ⟨3, .int⟩] := rfl
  obtain ⟨-, -, hfirst, -, -⟩ :=
    readRow_stops_at_first personAndNumber [.int 1, .int 5, .string "london"] hkeyed
  obtain ⟨-, -, -, hall, -⟩ :=
    readRow_stops_at_first personAndNumber [.int 1, .string "london", .int 5, .null] hkeyed
  refine ⟨hkeyed, (hfirst _).mpr ?_, hall ?_⟩
  · refine ⟨[⟨0, .int⟩], ⟨2, .int⟩, [⟨1, .string⟩, ⟨3, .int⟩], hcells, ?_,
      .mismatch (.string "london") rfl rfl⟩
    simp [Cell.Fits, ValueType.accepts]
  · rw [hcells]
    simp [Cell.Fits, ValueType.accepts]

end Lowered

end ObjectSelect
