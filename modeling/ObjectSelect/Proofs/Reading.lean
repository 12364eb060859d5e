import ObjectSelect.Proofs.Evaluation
import ObjectSelect.Proofs.Lowering

/-!
# Reading what was lowered

A row that holds the value of every selection reads as the query evaluates. `Agrees` compares the
two: they give the same, or both stop at a value that is not of the same type; only reading knows
the position. It is kept by sequencing (`Agrees.bind`), so reading and evaluation are compared piece
by piece: attributes, then the entities fetched with an entity, then what the query selects.

`Query.LowersTo.agrees_readRow` compares reading with the values of a query in which columns are
taken for the first ones of their keys, and this does not mention how the block shares. From it
follow that a consistent query reads as it evaluates, and that two settings read the same.
-/

set_option autoImplicit false
set_option relaxedAutoImplicit false

namespace ObjectSelect

/-- What reading gives is what evaluation gives: the same result, or a stop at a value that is not
of the same type. -/
inductive Agrees {α : Type} : Except Fault α → Except ValueType α → Prop
  | ok (a : α) : Agrees (.ok a) (.ok a)
  | mismatch (position : Nat) (type : ValueType) :
    Agrees (.error (.typeMismatch position type.name)) (.error type)

theorem Agrees.eq_ok {α : Type} {read : Except Fault α} {a : α} (h : Agrees read (.ok a)) :
    read = .ok a := by
  cases h
  rfl

/-- Steps that agree one after the other agree as a whole. -/
theorem Agrees.bind {α β : Type} {read : Except Fault α} {evaluated : Except ValueType α}
    {next : α → Except Fault β} {next' : α → Except ValueType β} (h : Agrees read evaluated)
    (hnext : ∀ a, Agrees (next a) (next' a)) : Agrees (read >>= next) (evaluated >>= next') := by
  cases h with
  | ok a => exact hnext a
  | mismatch position type => exact .mismatch position type

/-- Two ways of reading that agree with one evaluation give the same or stop at the same type. -/
theorem Agrees.eq_or_mismatch {α : Type} {read read' : Except Fault α}
    {evaluated : Except ValueType α} (h : Agrees read evaluated) (h' : Agrees read' evaluated) :
    (∃ a, read = .ok a ∧ read' = .ok a) ∨
      ∃ position position' type, read = .error (.typeMismatch position type) ∧
        read' = .error (.typeMismatch position' type) := by
  cases h with
  | ok a =>
    cases h'
    exact .inl ⟨a, rfl, rfl⟩
  | mismatch position type =>
    cases h' with
    | mismatch position' _ => exact .inr ⟨position, position', type.name, rfl, rfl⟩

/-- Reading a place of a row agrees with checking the value there. -/
theorem Cell.agrees_read {row : Row} {cell : Cell} {value : Value}
    (h : row[cell.position]? = some value) : Agrees (cell.read row) (cell.type.check value) := by
  simp only [Cell.read, h, ValueType.check]
  split
  · exact .ok value
  · exact .mismatch cell.position cell.type

theorem forall₂_append_of_length_eq {α β : Type} {r : α → β → Prop} {as bs : List α}
    {cs ds : List β} (hlength : as.length = cs.length)
    (h : List.Forall₂ r (as ++ bs) (cs ++ ds)) :
    List.Forall₂ r as cs ∧ List.Forall₂ r bs ds := by
  have htake := List.forall₂_take_append _ _ _ h
  have hdrop := List.forall₂_drop_append _ _ _ h
  rw [← hlength, List.take_left] at htake
  rw [← hlength, List.drop_left] at hdrop
  exact ⟨htake, hdrop⟩

/-! ### Attributes -/

namespace Attribute

theorem lookup_map_name (attributes : List Attribute) (name : String) :
    (attributes.map fun attr ↦ (attr.name, attr)).lookup name =
      attributes.find? fun attr ↦ attr.name == name := by
  induction attributes with
  | nil => rfl
  | cons attr rest ih =>
    rw [List.map_cons, List.lookup_cons, List.find?_cons, ih, Bool.beq_comm]

/-- The attributes that an entity shows are what is left of all when each is put under its name. -/
theorem putAll_map_name (attributes : List Attribute) :
    Assoc.putAll [] (attributes.map fun attr ↦ (attr.name, attr)) =
      (shown attributes).map fun attr ↦ (attr.name, attr) := by
  rw [Assoc.putAll_nil_eq, shown, List.map_filterMap, List.map_map, ← List.map_reverse]
  refine List.filterMap_congr fun name _ ↦ ?_
  rw [lookup_map_name]
  cases hfind : attributes.reverse.find? fun attr ↦ attr.name == name with
  | none => rfl
  | some attr =>
    have hname : attr.name = name := by simpa using List.find?_some hfind
    rw [Option.map_some, Option.map_some, hname]

/-- A cell of the type of an attribute, at a position that `r` allows for it. -/
def InCell (r : Attribute → Nat → Prop) (attr : Attribute) (cell : Cell) : Prop :=
  attr.type = cell.type ∧ r attr cell.position

/-- Each attribute that an entity shows is in the cell of its name, if the positions are allowed for
the attributes that they go with. -/
theorem forall₂_cells {r : Attribute → Nat → Prop} {attributes : List Attribute}
    {positions : List Nat} (h : List.Forall₂ r attributes positions) :
    List.Forall₂ (fun attr entry ↦ attr.name = entry.1 ∧ attr.InCell r entry.2)
      (shown attributes) (Assoc.putAll [] (cells attributes positions)) := by
  have hcells : List.Forall₂ (fun (x : String × Attribute) (y : String × Cell) ↦
      x.1 = y.1 ∧ x.2.InCell r y.2)
      (attributes.map fun attr ↦ (attr.name, attr)) (cells attributes positions) := by
    induction h with
    | nil => exact .nil
    | cons hplace _ ih => exact .cons ⟨rfl, rfl, hplace⟩ ih
  have hput := Assoc.forall₂_putAll hcells .nil
  rwa [putAll_map_name, List.forall₂_map_left_iff] at hput

end Attribute

/-- Reading cells agrees with the members for the attributes that are in them, inserted after those
held already. -/
theorem EntityReader.agrees_readAttributes {row : Row} {w : Column → Value} {correlation : String}
    {attributes : List Attribute} {cells : List (String × Cell)}
    (h : List.Forall₂ (fun attr entry ↦ attr.name = entry.1 ∧
      attr.InCell (fun attr position ↦ row[position]? = some (w (attr.column correlation))) entry.2)
      attributes cells) (held : List (String × Value)) :
    Agrees (readAttributes row cells held) (do
      let own ← attributes.mapM (Attribute.member w correlation)
      return Value.insertAll held own) := by
  induction h generalizing held with
  | nil => exact .ok held
  | @cons attr entry attributes cells hentry _ ih =>
    obtain ⟨name, cell⟩ := entry
    obtain ⟨rfl, htype, hplace⟩ := hentry
    rw [List.mapM_cons, Attribute.member, htype]
    simp only [readAttributes, bind_assoc, pure_bind]
    exact (Cell.agrees_read hplace).bind fun value ↦ ih _

/-! ### Entities -/

namespace EntityGraph

mutual

/-- An entity is read at as many positions as it maps columns. -/
theorem length_of_readBy : ∀ (graph : EntityGraph) {node : FetchNode} {positions : List Nat}
    {reader : EntityReader}, graph.ReadBy node positions reader →
    (graph.columnsAt node).length = positions.length
  | ⟨_, _, table, attributes, fetches⟩, node, _, _ => by
    rw [ReadBy]
    rintro ⟨-, own, below, rfl, hown, -, -, hbelow⟩
    rw [columnsAt, List.length_append, List.length_map, List.length_append, hown,
      length_of_fetchesReadBy fetches hbelow]
  termination_by structural graph => graph

theorem length_of_fetchesReadBy : ∀ (fetches : List (String × EntityGraph)) {node : FetchNode}
    {positions : List Nat} {readers : List (String × EntityReader)},
    FetchesReadBy node fetches positions readers →
    (fetchedColumnsAt node fetches).length = positions.length
  | [], node, _, _ => by
    rw [FetchesReadBy]
    rintro ⟨rfl, -⟩
    rfl
  | (name, graph) :: rest, node, _, _ => by
    rw [FetchesReadBy]
    rintro ⟨own, below, reader, others, rfl, -, hown, hbelow⟩
    rw [fetchedColumnsAt, List.length_append, List.length_append, length_of_readBy graph hown,
      length_of_fetchesReadBy rest hbelow]
  termination_by structural fetches => fetches

end

variable {row : Row} {w : Column → Value}

mutual

/-- A reader of an entity gives its object if the row holds, at the position for each column, the
value of this column. -/
theorem agrees_read : ∀ (graph : EntityGraph) {node : FetchNode} {positions : List Nat}
    {reader : EntityReader}, graph.ReadBy node positions reader →
    List.Forall₂ (fun site position ↦ row[position]? = some (w site.2)) (graph.columnsAt node)
      positions →
    Agrees (reader.read row) (graph.value w)
  | ⟨entity, label, table, attributes, fetches⟩, node, _, ⟨path, cells, readers⟩ => by
    rw [ReadBy]
    rintro ⟨-, own, below, rfl, hown, -, rfl, hbelow⟩ hrow
    rw [columnsAt] at hrow
    obtain ⟨hattributes, hfetches⟩ :=
      forall₂_append_of_length_eq (by rw [List.length_map, hown]) hrow
    rw [List.forall₂_map_left_iff] at hattributes
    have hcells := EntityReader.agrees_readAttributes (Attribute.forall₂_cells hattributes) []
    -- Evaluation inserts all members at the end, and reading inserts each as it comes.
    have hvalue : value w ⟨entity, label, table, attributes, fetches⟩ = (do
        let held ← (do
          let own ← (Attribute.shown attributes).mapM (Attribute.member w table.correlation)
          return Value.insertAll [] own)
        let members ← (do
          let fetched ← fetchedValues w fetches
          return Value.insertAll held fetched)
        return .object members) := by
      simp only [value, bind_assoc, pure_bind, Value.insertAll_append]
    rw [hvalue, EntityReader.read]
    refine hcells.bind fun held ↦ ?_
    exact (agrees_readFetches fetches hbelow hfetches held).bind fun members ↦ .ok _
  termination_by structural graph => graph

/-- Reading fetched entities agrees with their objects, inserted after the members held already. -/
theorem agrees_readFetches : ∀ (fetches : List (String × EntityGraph)) {node : FetchNode}
    {positions : List Nat} {readers : List (String × EntityReader)},
    FetchesReadBy node fetches positions readers →
    List.Forall₂ (fun site position ↦ row[position]? = some (w site.2))
      (fetchedColumnsAt node fetches) positions →
    ∀ held : List (String × Value), Agrees (EntityReader.readFetches row readers held) (do
      let fetched ← fetchedValues w fetches
      return Value.insertAll held fetched)
  | [], node, _, _ => by
    rw [FetchesReadBy]
    rintro ⟨-, rfl⟩ - held
    exact .ok held
  | (name, graph) :: rest, node, _, _ => by
    rw [FetchesReadBy]
    rintro ⟨own, below, reader, others, rfl, rfl, hown, hbelow⟩ hrow held
    rw [fetchedColumnsAt] at hrow
    obtain ⟨hgraph, hrest⟩ := forall₂_append_of_length_eq (length_of_readBy graph hown) hrow
    simp only [EntityReader.readFetches, fetchedValues, bind_assoc, pure_bind]
    exact (agrees_read graph hown hgraph).bind fun value ↦
      agrees_readFetches rest hbelow hrest _
  termination_by structural fetches => fetches

end

end EntityGraph

/-! ### Queries -/

namespace QueryItem

theorem length_of_readBy {seen : List Column} {item : QueryItem} {positions : List Nat}
    {reader : Reader} (h : item.ReadBy seen positions reader) :
    (item.demands .first seen).length = positions.length := by
  cases item with
  | scalar e type label =>
    obtain ⟨position, rfl, -⟩ := h
    rfl
  | entity graph =>
    obtain ⟨reader, -, hreader⟩ := h
    rw [demands, List.length_map, graph.length_of_readBy hreader]
  | subquery query label =>
    obtain ⟨position, rfl, -⟩ := h
    rfl

variable {row : Row} {v : Expr → Value}

/-- A reader of a selected thing gives its value if the row holds, at the position for each demand,
the value of the expression demanded. -/
theorem agrees_read {seen : List Column} {item : QueryItem} {positions : List Nat} {reader : Reader}
    (h : item.ReadBy seen positions reader)
    (hrow : List.Forall₂ (fun d position ↦ row[position]? = some (v d.expr))
      (item.demands .first seen) positions) :
    Agrees (reader.read row) (item.value .first v seen) := by
  cases item with
  | scalar e type label =>
    obtain ⟨position, rfl, rfl⟩ := h
    obtain ⟨hplace, -⟩ := List.forall₂_cons.mp hrow
    exact Cell.agrees_read hplace
  | entity graph =>
    obtain ⟨reader, rfl, hreader⟩ := h
    rw [demands, List.forall₂_map_left_iff] at hrow
    exact graph.agrees_read hreader hrow
  | subquery query label =>
    obtain ⟨position, rfl, rfl⟩ := h
    obtain ⟨hplace, -⟩ := List.forall₂_cons.mp hrow
    exact Cell.agrees_read hplace

/-- Readers of selected things give their values, one after the other. -/
theorem agrees_readAll {seen : List Column} {items : List QueryItem} {positions : List Nat}
    {readers : List Reader} (h : AllReadBy seen items positions readers)
    (hrow : List.Forall₂ (fun d position ↦ row[position]? = some (v d.expr))
      (demandsAll .first seen items) positions) :
    Agrees (readers.mapM (Reader.read row)) (values .first v seen items) := by
  induction items generalizing seen positions readers with
  | nil =>
    obtain ⟨-, rfl⟩ := h
    exact .ok []
  | cons item rest ih =>
    obtain ⟨own, below, reader, others, rfl, rfl, hown, hbelow⟩ := h
    obtain ⟨hitem, hrest⟩ := forall₂_append_of_length_eq (length_of_readBy hown) hrow
    rw [List.mapM_cons, values]
    exact (agrees_read hown hitem).bind fun value ↦ (ih hbelow hrest).bind fun others ↦ .ok _

end QueryItem

/-- The row of a query specification in which every selection has the value of its expression. -/
def QuerySpec.row (spec : QuerySpec) (v : Expr → Value) : Row :=
  spec.selections.map fun item ↦ v item.expr

/-- A home, with its city by a formula. -/
def EntityGraph.home : EntityGraph :=
  ⟨"Address", none, ⟨"address", "a"⟩, [⟨"city", "lower(city)", .string, true⟩], []⟩

/-- A person, fetched with the home. -/
def EntityGraph.person : EntityGraph :=
  ⟨"Person", none, ⟨"person", "p"⟩, [⟨"name", "name", .string, false⟩], [("home", home)]⟩

namespace Query

variable {v : Expr → Value}

/-- What a lowered query reads is what the query means when columns are taken for the first ones of
their keys, however the block shares. -/
theorem LowersTo.agrees_readRow {flat : Bool} {query : Query} {lowered : Lowered}
    (h : query.LowersTo flat [] lowered) (hv : ∀ e e' : Expr, (e == e') = true → v e = v e') :
    Agrees (lowered.readRow (lowered.spec.row v))
      (QueryItem.values .first v [] query.selections) := by
  obtain ⟨selections, tables⟩ := query
  refine QueryItem.agrees_readAll h.readers ?_
  rw [List.forall₂_map_right_iff, h.spec_eq]
  refine (Ledger.forall₂_answers rfl _).imp fun d item ⟨hplace, hexpr⟩ ↦ ?_
  rw [QuerySpec.row, List.getElem?_map, ← hv _ _ hexpr]
  exact congrArg (Option.map fun item ↦ v item.expr) hplace

/-- People with their homes, one column of a person again, and a number of a nested query. -/
def people : Query :=
  ⟨[.entity .person, .scalar (.column ⟨"p", "name", false, .string⟩) .string none,
    .subquery ⟨[.scalar (.function "count" []) .int none], []⟩ none], []⟩

theorem exists_lowered_people (config : Config) : ∃ lowered, lower config people = .ok lowered := by
  have hok : (lower config people).toBool = true := by
    obtain ⟨shares, sharesInside⟩ := config
    revert shares sharesInside
    decide +kernel
  cases hlower : lower config people with
  | error failure => simp [hlower, Except.toBool] at hok
  | ok lowered => exact ⟨lowered, rfl⟩

/-- Columns have their text as their value, and everything else has the same number. -/
def textOrNumber : Expr → Value
  | .column c => .string c.text
  | _ => .int 7

theorem textOrNumber_congr (e e' : Expr) (h : (e == e') = true) :
    textOrNumber e = textOrNumber e' := by
  cases e' with
  | column c => rw [(Expr.beq_column_iff e c).mp h]
  | literal | parameter | function | subquery =>
    cases e with
    | column c => cases (Expr.beq_column_iff _ c).mp (BEq.symm h)
    | literal | parameter | function | subquery => rfl

/-- A consistent query that is lowered reads as it evaluates. Assumes: equal expressions have the
same value, and the row holds the values of the selections. Reading by position gives what
evaluating the query directly gives, or both stop at a value that is not of the same type. -/
theorem readRow_agrees_evaluate {config : Config} {query : Query} {lowered : Lowered}
    (hlower : lower config query = .ok lowered) (hconsistent : query.Consistent)
    (hv : ∀ e e' : Expr, (e == e') = true → v e = v e') :
    Agrees (lowered.readRow (lowered.spec.row v)) (query.evaluate v) := by
  have hreads := (lowersTo_of_lower hlower).agrees_readRow hv
  rwa [hconsistent.values_first_eq] at hreads

theorem readRow_people : ∃ lowered, lower .flat people = .ok lowered ∧
    Agrees (lowered.readRow (lowered.spec.row textOrNumber)) (people.evaluate textOrNumber) ∧
    lowered.readRow (lowered.spec.row textOrNumber) = .ok
      [.object [("home", .object [("city", .string "lower(city)")]), ("name", .string "name")],
        .string "name", .int 7] := by
  obtain ⟨lowered, hlower⟩ := exists_lowered_people .flat
  have hagrees := readRow_agrees_evaluate hlower (by decide) textOrNumber_congr
  have hvalues : people.evaluate textOrNumber = .ok
      [.object [("home", .object [("city", .string "lower(city)")]), ("name", .string "name")],
        .string "name", .int 7] := rfl
  refine ⟨lowered, hlower, hagrees, ?_⟩
  rw [hvalues] at hagrees
  exact hagrees.eq_ok

/-- The settings of lowering do not show in what is read. Assumes: a query is lowered under two
settings, equal expressions have the same value, and each row holds the values of the selections
made under its setting. Both rows read the same values, or both stop at a value that is not of the
same type, each at its own position. -/
theorem readRow_eq_of_configs {config config' : Config} {query : Query} {lowered lowered' : Lowered}
    (hlower : lower config query = .ok lowered) (hlower' : lower config' query = .ok lowered')
    (hv : ∀ e e' : Expr, (e == e') = true → v e = v e') :
    (∃ values, lowered.readRow (lowered.spec.row v) = .ok values ∧
        lowered'.readRow (lowered'.spec.row v) = .ok values) ∨
      ∃ position position' type,
        lowered.readRow (lowered.spec.row v) = .error (.typeMismatch position type) ∧
        lowered'.readRow (lowered'.spec.row v) = .error (.typeMismatch position' type) :=
  ((lowersTo_of_lower hlower).agrees_readRow hv).eq_or_mismatch
    ((lowersTo_of_lower hlower').agrees_readRow hv)

theorem readRow_people_eq : ∃ lowered lowered', lower .flat people = .ok lowered ∧
    lower .fetchScoped people = .ok lowered' ∧
    ((∃ values, lowered.readRow (lowered.spec.row textOrNumber) = .ok values ∧
        lowered'.readRow (lowered'.spec.row textOrNumber) = .ok values) ∨
      ∃ position position' type,
        lowered.readRow (lowered.spec.row textOrNumber) = .error (.typeMismatch position type) ∧
        lowered'.readRow (lowered'.spec.row textOrNumber) =
          .error (.typeMismatch position' type)) := by
  obtain ⟨lowered, hlower⟩ := exists_lowered_people .flat
  obtain ⟨lowered', hlower'⟩ := exists_lowered_people .fetchScoped
  exact ⟨lowered, lowered', hlower, hlower',
    readRow_eq_of_configs hlower hlower' textOrNumber_congr⟩

end Query

end ObjectSelect
