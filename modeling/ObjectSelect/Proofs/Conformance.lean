import ObjectSelect.Proofs.Cells

/-!
# Rows that conform to a select list

A row conforms to a select list if each of its values is accepted by the type of the selection at
its position. A selection has the type of the demand that it was made for (`Demand.source`), and a
reader reads it at the type of its own demand, so what is shared may be read at another type than it
was selected with. `Query.conforming_readable_iff` says which queries read every conforming row:
those in which each value shown is read at a type that takes all values of the type that it was
selected with.
-/

set_option autoImplicit false
set_option relaxedAutoImplicit false

namespace ObjectSelect

/-! ### Types that take all values of another -/

namespace ValueType

/-- Every value of the type is a value of the other one. -/
def Within (type other : ValueType) : Prop :=
  ∀ value, type.accepts value = true → other.accepts value = true

/-- A value of each kind. -/
def samples : List Value :=
  [.null, .bool true, .int 1, .float ⟨0x3ff0000000000000, by decide⟩, .string "", .array [],
    .object []]

/-- Whether a type accepts a value depends on the kind of the value only. -/
theorem exists_sample (value : Value) :
    ∃ sample ∈ samples, ∀ type : ValueType, type.accepts value = type.accepts sample := by
  cases value with
  | null => exact ⟨.null, by simp [samples], fun _ ↦ rfl⟩
  | bool b => exact ⟨.bool true, by simp [samples], fun type ↦ by cases type <;> rfl⟩
  | int n => exact ⟨.int 1, by simp [samples], fun type ↦ by cases type <;> rfl⟩
  | float x =>
    exact ⟨.float ⟨0x3ff0000000000000, by decide⟩, by simp [samples],
      fun type ↦ by cases type <;> rfl⟩
  | string text => exact ⟨.string "", by simp [samples], fun type ↦ by cases type <;> rfl⟩
  | array items => exact ⟨.array [], by simp [samples], fun type ↦ by cases type <;> rfl⟩
  | object members => exact ⟨.object [], by simp [samples], fun type ↦ by cases type <;> rfl⟩

theorem forall_samples_iff_within (type other : ValueType) :
    (∀ sample ∈ samples, type.accepts sample = true → other.accepts sample = true) ↔
      type.Within other := by
  constructor
  · intro h value hvalue
    obtain ⟨sample, hsample, haccepts⟩ := exists_sample value
    rw [haccepts] at hvalue ⊢
    exact h sample hsample hvalue
  · exact fun h sample _ ↦ h sample

instance (type other : ValueType) : Decidable (type.Within other) :=
  decidable_of_iff _ (forall_samples_iff_within type other)

end ValueType

/-! ### Conforming rows -/

namespace QuerySpec

/-- A row has one value for each selection, of the selection's type. -/
def Conforms (spec : QuerySpec) (row : Row) : Prop :=
  List.Forall₂ (fun item value ↦ item.type.accepts value = true) spec.selections row

theorem Conforms.exists_getElem? {spec : QuerySpec} {row : Row} (h : spec.Conforms row)
    {position : Nat} {item : Selection} (hitem : spec.selections[position]? = some item) :
    ∃ value, row[position]? = some value ∧ item.type.accepts value = true := by
  obtain ⟨hposition, rfl⟩ := List.getElem?_eq_some_iff.mp hitem
  have hrow := h.length_eq ▸ hposition
  exact ⟨row[position], List.getElem?_eq_getElem hrow, h.get hposition hrow⟩

/-- The row with a value at one position and null elsewhere. -/
def rowWith (spec : QuerySpec) (position : Nat) (value : Value) : Row :=
  (spec.selections.map fun _ ↦ .null).set position value

theorem conforms_rowWith {spec : QuerySpec} {position : Nat} {item : Selection}
    (hitem : spec.selections[position]? = some item) {value : Value}
    (hvalue : item.type.accepts value = true) : spec.Conforms (spec.rowWith position value) := by
  refine List.forall₂_iff_get.mpr ⟨by simp [rowWith], fun i hi hi' ↦ ?_⟩
  simp only [rowWith, List.get_eq_getElem, List.getElem_set, List.getElem_map]
  split
  · rename_i hposition
    subst hposition
    rw [List.getElem?_eq_getElem hi, Option.some.injEq] at hitem
    rwa [hitem]
  · exact ValueType.accepts_null _

theorem getElem?_rowWith {spec : QuerySpec} {position : Nat} {item : Selection}
    (hitem : spec.selections[position]? = some item) (value : Value) :
    (spec.rowWith position value)[position]? = some value := by
  obtain ⟨hposition, -⟩ := List.getElem?_eq_some_iff.mp hitem
  simp [rowWith, hposition]

end QuerySpec

theorem forall_mem_iff_of_forall₂ {α β : Type} {p : α → Prop} {q : β → Prop} {items : List α}
    {others : List β} (h : List.Forall₂ (fun item other ↦ (p item ↔ q other)) items others) :
    (∀ item ∈ items, p item) ↔ ∀ other ∈ others, q other := by
  induction h with
  | nil => simp
  | cons hitem _ ih => rw [List.forall_mem_cons, List.forall_mem_cons, hitem, ih]

/-- Every conforming row can be read just when each cell is read at a type that takes all values of
the selection at its place. -/
theorem Lowered.forall_conforming_iff {lowered : Lowered}
    (hplaces : ∀ cell ∈ lowered.readers.flatMap Reader.cells,
      ∃ item, lowered.spec.selections[cell.position]? = some item) :
    (∀ row, lowered.spec.Conforms row → ∃ values, lowered.readRow row = .ok values) ↔
      ∀ cell ∈ lowered.readers.flatMap Reader.cells,
        ∀ item, lowered.spec.selections[cell.position]? = some item →
          item.type.Within cell.type := by
  simp only [exists_readRow_iff, Cell.exists_read_iff]
  constructor
  · intro h cell hcell item hitem value hvalue
    have hrow := h _ (QuerySpec.conforms_rowWith hitem hvalue) cell hcell
    simpa [QuerySpec.getElem?_rowWith hitem] using hrow
  · intro h row hrow cell hcell
    obtain ⟨item, hitem⟩ := hplaces cell hcell
    obtain ⟨value, hvalue, haccepts⟩ := hrow.exists_getElem? hitem
    exact ⟨value, hvalue, h cell hcell item hitem value haccepts⟩

namespace Query

/-- What is asked for is answered by a selection of the type of the demand that it was made for. -/
theorem LowersTo.forall₂_types {flat : Bool} {query : Query} {lowered : Lowered}
    (h : query.LowersTo flat [] lowered) :
    List.Forall₂ (fun d position ↦ ∃ item, lowered.spec.selections[position]? = some item ∧
        item.type = (d.source flat (query.demands .first [])).type)
      (query.demands .first [])
      (((Ledger.empty flat 0).answers (query.demands .first [])).map Selection.position) := by
  rw [List.forall₂_map_right_iff, h.spec_eq]
  refine List.Forall₂.mp ?_ (Ledger.forall₂_answers rfl _) (Ledger.forall₂_answers_source flat 0 _)
  rintro d item ⟨hplace, -⟩ ⟨position, hitem⟩
  exact ⟨item, hplace, by rw [hitem]; rfl⟩

/-- When every row that conforms to the select list can be read. Assumes: a query is lowered. Each
such row can be read just when everything that is asked for and shown is asked for at a type that
takes all values of the type of the demand that its selection was made for. That demand is the first
one for the same expression in the same scope. -/
theorem conforming_readable_iff {config : Config} {query : Query} {lowered : Lowered}
    (hlower : lower config query = .ok lowered) :
    (∀ row, lowered.spec.Conforms row → ∃ values, lowered.readRow row = .ok values) ↔
      ∀ d ∈ query.shownDemands,
        (d.source config.shareSelections (query.demands .first [])).type.Within d.type := by
  have hlowers := lowersTo_of_lower hlower
  have hcells : List.Forall₂ (fun (d : Demand) (cell : Cell) ↦ d.type = cell.type ∧
      ∃ item, lowered.spec.selections[cell.position]? = some item ∧
        item.type = (d.source config.shareSelections (query.demands .first [])).type)
      query.shownDemands (lowered.readers.flatMap Reader.cells) := by
    have htypes := hlowers.forall₂_types
    obtain ⟨selections, tables⟩ := query
    exact QueryItem.forall₂_allCells hlowers.readers htypes
  rw [Lowered.forall_conforming_iff]
  · refine (forall_mem_iff_of_forall₂ (hcells.imp ?_)).symm
    rintro d cell ⟨htype, item, hitem, hsource⟩
    rw [hitem, htype, ← hsource]
    simp
  · refine (forall_mem_iff_of_forall₂ (p := fun _ ↦ True) (hcells.imp ?_)).mp fun _ _ ↦ trivial
    rintro d cell ⟨-, item, hitem, -⟩
    simp [hitem]

theorem conforming_people_readable : ∃ lowered, lower .flat people = .ok lowered ∧
    ∀ row, lowered.spec.Conforms row → ∃ values, lowered.readRow row = .ok values := by
  obtain ⟨lowered, hlower⟩ := exists_lowered_people .flat
  exact ⟨lowered, hlower, (conforming_readable_iff hlower).mpr (by decide)⟩

/-- A parameter that is selected as a number and again as a text. -/
def numberAndText : Query :=
  ⟨[.scalar (.parameter 1) .int none, .scalar (.parameter 1) .string none], []⟩

/-- A number conforms to the selection that a number and a text share, and cannot be read as the
text. -/
theorem conforming_row_unreadable : ∃ lowered row, lower .flat numberAndText = .ok lowered ∧
    lowered.spec.Conforms row ∧ lowered.readRow row = .error (.typeMismatch 0 "String") :=
  ⟨⟨⟨false, [⟨0, 1, .parameter 1, .int⟩], []⟩, [.basic ⟨0, .int⟩ none, .basic ⟨0, .string⟩ none]⟩,
    [.int 7], rfl, .cons rfl .nil, rfl⟩

end Query

end ObjectSelect
