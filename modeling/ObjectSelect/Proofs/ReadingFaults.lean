import ObjectSelect.Proofs.Cells

/-!
# The first fault of a row

Reading goes through the cells of the readers in their order and stops at the first one that does
not fit the row. `Cell.fault?` says what is wrong with a cell, `Stops` compares the end of a reading
with the fault that is expected of it, and the comparison is kept when one thing is read after
another (`Stops.bind`). So the fault that a row is refused for is the first among the cells of all
readers, one after the other (`Lowered.stops_readRow`).
-/

set_option autoImplicit false
set_option relaxedAutoImplicit false

namespace ObjectSelect

/-- Reading ends with the fault that is expected of it, or with a result if none is. -/
def Stops {α : Type} (expected : Option Fault) : Except Fault α → Prop
  | .ok _ => expected = none
  | .error fault => expected = some fault

namespace Stops

variable {α β : Type}

/-- Of two things read one after the other the first fault counts. -/
theorem bind {expected later : Option Fault} {read : Except Fault α} {next : α → Except Fault β}
    (h : Stops expected read) (hnext : ∀ a, Stops later (next a)) :
    Stops (expected.or later) (read >>= next) := by
  cases read with
  | ok a =>
    obtain rfl : expected = none := h
    exact hnext a
  | error fault =>
    obtain rfl : expected = some fault := h
    rfl

/-- What is made of a result does not change the fault. -/
theorem map {expected : Option Fault} {read : Except Fault α} (h : Stops expected read)
    (f : α → β) : Stops expected (read >>= fun a ↦ pure (f a)) := by
  rw [← Option.or_none (o := expected)]
  exact h.bind fun _ ↦ rfl

theorem error_iff {expected : Option Fault} {read : Except Fault α} (h : Stops expected read)
    (fault : Fault) : read = .error fault ↔ expected = some fault := by
  cases read with
  | ok a =>
    obtain rfl : expected = none := h
    simp
  | error other =>
    obtain rfl : expected = some other := h
    simp

end Stops

/-! ### Rows that fit a cell -/

namespace Cell

/-- The row has a value of the cell's type at the cell's position. -/
def Fits (row : Row) (cell : Cell) : Prop :=
  ∃ value, row[cell.position]? = some value ∧ cell.type.accepts value = true

/-- What is wrong with the row at a cell: it ends before the cell's position, or its value there is
not of the cell's type. -/
inductive Fails (row : Row) (cell : Cell) : Fault → Prop
  | tooShort (hlength : row.length ≤ cell.position) :
    Fails row cell (.rowTooShort cell.position row.length)
  | mismatch (value : Value) (hvalue : row[cell.position]? = some value)
    (htype : cell.type.accepts value = false) :
    Fails row cell (.typeMismatch cell.position cell.type.name)

/-- What is wrong with a cell, if it does not fit the row. -/
def fault? (row : Row) (cell : Cell) : Option Fault :=
  match row[cell.position]? with
  | none => some (.rowTooShort cell.position row.length)
  | some value =>
    if cell.type.accepts value then none else some (.typeMismatch cell.position cell.type.name)

theorem stops_read (row : Row) (cell : Cell) : Stops (cell.fault? row) (cell.read row) := by
  unfold fault? read
  cases row[cell.position]? with
  | none => rfl
  | some value =>
    by_cases haccepts : cell.type.accepts value = true
    · simp [haccepts, Stops]
    · simp [haccepts, Stops]

theorem fault?_eq_none_iff (row : Row) (cell : Cell) :
    cell.fault? row = none ↔ cell.Fits row := by
  unfold fault? Fits
  cases row[cell.position]? with
  | none => simp
  | some value => by_cases haccepts : cell.type.accepts value = true <;> simp [haccepts]

theorem fault?_eq_some_iff (row : Row) (cell : Cell) (fault : Fault) :
    cell.fault? row = some fault ↔ cell.Fails row fault := by
  constructor
  · intro h
    unfold fault? at h
    cases hvalue : row[cell.position]? with
    | none =>
      simp only [hvalue, Option.some.injEq] at h
      subst h
      exact .tooShort (List.getElem?_eq_none_iff.mp hvalue)
    | some value =>
      by_cases haccepts : cell.type.accepts value = true
      · simp [hvalue, haccepts] at h
      · simp only [hvalue, haccepts, Bool.false_eq_true, if_false, Option.some.injEq] at h
        subst h
        exact .mismatch value hvalue (Bool.eq_false_iff.mpr haccepts)
  · rintro (hlength | ⟨value, hvalue, htype⟩)
    · simp [fault?, List.getElem?_eq_none hlength]
    · simp [fault?, hvalue, htype]

end Cell

namespace EntityReader

theorem stops_readAttributes (row : Row) (attributes : List (String × Cell))
    (members : List (String × Value)) :
    Stops ((attributes.map Prod.snd).findSome? (Cell.fault? row))
      (readAttributes row attributes members) := by
  induction attributes generalizing members with
  | nil => rfl
  | cons entry rest ih =>
    rw [List.map_cons, ← List.singleton_append, List.findSome?_append, List.findSome?_singleton]
    exact (Cell.stops_read row entry.2).bind fun value ↦ ih _

mutual

/-- An object is refused for the first fault among its cells. -/
theorem stops_read (row : Row) : ∀ reader : EntityReader,
    Stops (reader.cells.findSome? (Cell.fault? row)) (reader.read row)
  | ⟨path, attributes, fetches⟩ => by
    rw [cells, List.findSome?_append, read]
    refine (stops_readAttributes row attributes []).bind fun members ↦ ?_
    exact (stops_readFetches row fetches members).map Value.object
  termination_by structural reader => reader

theorem stops_readFetches (row : Row) : ∀ (fetches : List (String × EntityReader))
    (members : List (String × Value)),
    Stops ((fetchedCells fetches).findSome? (Cell.fault? row)) (readFetches row fetches members)
  | [], members => rfl
  | (name, reader) :: rest, members => by
    rw [fetchedCells, List.findSome?_append, readFetches]
    exact (stops_read row reader).bind fun value ↦ stops_readFetches row rest _
  termination_by structural fetches => fetches

end

end EntityReader

theorem Reader.stops_read (row : Row) (reader : Reader) :
    Stops (reader.cells.findSome? (Cell.fault? row)) (reader.read row) := by
  cases reader with
  | basic cell label =>
    rw [cells, List.findSome?_singleton]
    exact Cell.stops_read row cell
  | entity reader => exact reader.stops_read row

theorem Reader.stops_readAll (row : Row) (readers : List Reader) :
    Stops ((readers.flatMap cells).findSome? (Cell.fault? row)) (readers.mapM (read row)) := by
  induction readers with
  | nil => rfl
  | cons reader rest ih =>
    rw [List.flatMap_cons, List.findSome?_append, List.mapM_cons]
    exact (reader.stops_read row).bind fun value ↦ ih.map (value :: ·)

/-- A row is refused for the first fault among the cells of the readers. -/
theorem Lowered.stops_readRow (lowered : Lowered) (row : Row) :
    Stops ((lowered.readers.flatMap Reader.cells).findSome? (Cell.fault? row))
      (lowered.readRow row) :=
  Reader.stops_readAll row lowered.readers

end ObjectSelect
