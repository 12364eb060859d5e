import ObjectSelect.Lowering
import ObjectSelect.Proofs.Demands
import ObjectSelect.Proofs.Resolver

/-!
# Steps on the block being made

`Stack.Makes` describes a stack while a block is made: the frames around the block, the query
specification and the ledger of the innermost frame, and the columns that the stack knows. Each step
that lowering takes on the stack is described by what it does to these four: a demand is noted in
the ledger, a column is added to those known, and a table is added to the query specification.
-/

set_option autoImplicit false
set_option relaxedAutoImplicit false

namespace ObjectSelect

namespace Lowering

section

variable {α β : Type} {stack after : Stack}

/-- A step followed by another succeeds just when both do. -/
theorem bind_eq_ok (step : Step α) (next : α → Step β) (result : β) :
    (step >>= next) stack = .ok result after ↔
      ∃ a middle, step stack = .ok a middle ∧ next a middle = .ok result after := by
  simp only [bind, EStateM.bind]
  cases step stack <;> simp

theorem pure_eq_ok (a result : α) :
    (pure a : Step α) stack = .ok result after ↔ a = result ∧ stack = after := by
  simp [pure, EStateM.pure]

theorem refuse_ne_ok (fault : Fault) (result : α) : refuse fault stack ≠ .ok result after := by
  intro h
  cases h

theorem onStack_eq_ok (step : EStateM Violation Stack α) (result : α) :
    onStack step stack = .ok result after ↔ step stack = .ok result after := by
  simp only [onStack, EStateM.adaptExcept]
  cases step stack <;> simp

theorem modify_eq_ok (change : Stack → Stack) (result : PUnit) :
    (modify change : Step PUnit) stack = .ok result after ↔ change stack = after := by
  change EStateM.Result.ok PUnit.unit (change stack) = .ok result after ↔ _
  simp

theorem modifyGet_eq_ok (change : Stack → α × Stack) (result : α) :
    (modifyGet change : Step α) stack = .ok result after ↔ change stack = (result, after) := by
  change EStateM.Result.ok (change stack).1 (change stack).2 = .ok result after ↔ _
  simp [Prod.ext_iff]

theorem attempt_eq_ok (step : Step α) (result : α) :
    attempt step stack = (.ok result, after) ↔ step stack = .ok result after := by
  rw [attempt]
  cases step stack <;> simp

/-- What follows a check succeeds just when the check does not refuse and it succeeds itself. -/
theorem check_eq_ok (condition : Bool) (fault : Fault) (step : Step α) (result : α) :
    (if condition = true then refuse (α := PUnit) fault >>= fun _ ↦ step else step) stack =
        .ok result after ↔
      condition = false ∧ step stack = .ok result after := by
  cases condition with
  | true => simp [bind_eq_ok, refuse_ne_ok]
  | false => simp

/-- A block that passes the check for a single selection has one to take at the first index. -/
theorem exists_selectionAt_zero {spec : QuerySpec} (h : (spec.count != 1) = false) :
    ∃ only, spec.selections = [only] ∧ selectionAt 0 spec stack = .ok only stack := by
  rw [bne_eq_false_iff_eq] at h
  obtain ⟨only, honly⟩ := List.length_eq_one_iff.mp h
  refine ⟨only, honly, ?_⟩
  rw [selectionAt, honly]
  rfl

end

end Lowering

namespace QuerySpec

/-- The query specification with tables added one after the other. -/
def addTables (spec : QuerySpec) (tables : List Table) : QuerySpec :=
  tables.foldl (fun spec table ↦ spec.addTable table) spec

@[simp]
theorem addTables_nil (spec : QuerySpec) : spec.addTables [] = spec := rfl

@[simp]
theorem addTables_cons (spec : QuerySpec) (table : Table) (rest : List Table) :
    spec.addTables (table :: rest) = (spec.addTable table).addTables rest := rfl

@[simp]
theorem addTables_append (spec : QuerySpec) (tables rest : List Table) :
    spec.addTables (tables ++ rest) = (spec.addTables tables).addTables rest := by
  simp [addTables]

/-- Adding tables to those of a block adds the others, each once. -/
theorem addTables_ofTables (tables rest : List Table) :
    (ofTables tables).addTables rest =
      ofTables (tables ++ (rest.filter (· ∉ tables)).eraseDups) := by
  induction rest using List.reverseRecOn with
  | nil => simp
  | append_singleton rest table ih =>
    rw [addTables_append, ih, addTables_cons, addTables_nil, addTable, List.filter_append,
      List.eraseDups_append]
    by_cases htables : table ∈ tables
    · simp [ofTables, htables, List.removeAll]
    · by_cases hrest : table ∈ rest
      · simp [ofTables, htables, hrest, List.removeAll]
      · simp [ofTables, htables, hrest, List.removeAll, List.eraseDups_cons]

end QuerySpec

namespace Stack

/-- The stack remembers the first of the columns in `seen` under each key, and nothing else. -/
def Knows (stack : Stack) (seen : List Column) : Prop :=
  ∀ key, stack.column? key = (seen.find? fun c ↦ c.key == key).map .column

theorem knows_nil : Knows [] [] :=
  fun _ ↦ rfl

/-- A frame that remembers nothing adds nothing to what is known. -/
theorem Knows.push {stack : Stack} {seen : List Column} (h : stack.Knows seen) (part : QueryPart)
    (flat : Bool) : (stack.push part flat).Knows seen := by
  intro key
  rw [← h key]
  rfl

theorem column?_cons (key : ColumnKey) (frame : Frame) (outer : Stack) :
    column? key (frame :: outer) = (frame.column? key).or (column? key outer) := by
  simp only [column?, List.findSome?_cons]
  cases frame.column? key <;> rfl

/-- What is known depends only on the columns that the frames remember. -/
theorem Knows.congr {frame other : Frame} {outer : Stack} {seen : List Column}
    (h : Knows (frame :: outer) seen) (hcolumns : other.columns = frame.columns) :
    Knows (other :: outer) seen := by
  intro key
  rw [← h key, column?_cons, column?_cons, Frame.column?, Frame.column?, hcolumns]

/-- A column asked for after others of its key changes nothing that is known. -/
theorem Knows.append_known {stack : Stack} {seen : List Column} (h : stack.Knows seen) {c : Column}
    (hknown : (seen.find? fun earlier ↦ earlier.key == c.key).isSome) :
    stack.Knows (seen ++ [c]) := by
  intro key
  rw [h key, List.find?_append]
  by_cases hkey : c.key = key
  · subst hkey
    obtain ⟨earlier, hearlier⟩ := Option.isSome_iff_exists.mp hknown
    rw [hearlier, Option.some_or]
  · simp [hkey]

/-- The first column asked for under a key is known once the innermost frame remembers it. -/
theorem Knows.append_new {frame : Frame} {outer : Stack} {seen : List Column}
    (h : Knows (frame :: outer) seen) {c : Column}
    (hnew : seen.find? (fun earlier ↦ earlier.key == c.key) = none) :
    Knows ({ frame with columns := frame.columns ++ [(c.key, .column c)] } :: outer)
      (seen ++ [c]) := by
  have hframe : frame.columns.lookup c.key = none := by
    have hnone := h c.key
    rw [hnew, Option.map_none, column?_cons, Option.or_eq_none_iff] at hnone
    exact hnone.1
  intro key
  have hold := h key
  rw [column?_cons, Frame.column?] at hold
  rw [column?_cons, Frame.column?, List.lookup_append, List.find?_append]
  by_cases hkey : key = c.key
  · subst hkey
    rw [hframe, hnew]
    simp
  · have hlookup : (key == c.key) = false := by simpa using hkey
    have hfind : (c.key == key) = false := by simpa using Ne.symm hkey
    simp [List.lookup_cons, hlookup, hfind, hold]

/-- Asking for a column gives the first one of its key, which is known afterwards. -/
theorem column_of_knows {frame : Frame} {outer : Stack} {seen : List Column}
    (h : Knows (frame :: outer) seen) (c : Column) :
    ∃ isNew columns, Stack.column c.key (.column c) (frame :: outer) =
        .ok (.column (Naming.first seen c), isNew) ({ frame with columns := columns } :: outer) ∧
      Knows ({ frame with columns := columns } :: outer) (seen ++ [c]) := by
  have hkey := h c.key
  cases hfind : seen.find? (fun earlier ↦ earlier.key == c.key) with
  | some earlier =>
    rw [hfind, Option.map_some] at hkey
    refine ⟨false, frame.columns, ?_, h.append_known (by simp [hfind])⟩
    simp [Stack.column, hkey, Naming.first, hfind]
  | none =>
    rw [hfind, Option.map_none] at hkey
    refine ⟨true, _, ?_, h.append_new hfind⟩
    have hframe : frame.column? c.key = none := by
      rw [column?_cons, Option.or_eq_none_iff] at hkey
      exact hkey.1
    simp [Stack.column, hkey, Naming.first, hfind, currentColumn, onCurrent, Frame.column, hframe]

/-- A stack whose innermost frame is making a block: the frame has put the selections of `ledger`
after those of `spec`, it is inside the frames of `outer`, and all of them know the columns in
`seen`. -/
structure Makes (outer : Stack) (spec : QuerySpec) (ledger : Ledger) (seen : List Column)
    (stack : Stack) : Prop where
  intro ::
  exists_frame : ∃ frame, stack = frame :: outer ∧ frame.Records spec ledger
  knows : stack.Knows seen

/-- A block starts with nothing selected. -/
theorem Makes.push {stack : Stack} {seen : List Column} (h : stack.Knows seen)
    (tables : List Table) (flat : Bool) :
    Makes stack (.ofTables tables) (.empty flat 0) seen
      (stack.push (.spec (.ofTables tables)) flat) :=
  ⟨⟨_, rfl, Frame.records_start (.ofTables tables) flat⟩, h.push _ _⟩

/-- Selecting answers a demand as the ledger does, and notes it. -/
theorem Makes.select {outer stack after : Stack} {spec : QuerySpec} {ledger : Ledger}
    {seen : List Column} {item : Selection} (h : Makes outer spec ledger seen stack) (d : Demand)
    (hselect : Stack.select d.expr d.type d.node stack = .ok item after) :
    item = ledger.answer d ∧ Makes outer spec (ledger.note d) seen after := by
  obtain ⟨⟨frame, rfl, hframe⟩, hknows⟩ := h
  obtain ⟨part, cache, hanswer, hafter⟩ := hframe.answer d
  rw [Frame.answer] at hanswer
  simp only [Stack.select, onCurrent, hanswer, EStateM.Result.ok.injEq] at hselect
  obtain ⟨rfl, rfl⟩ := hselect
  exact ⟨rfl, ⟨_, rfl, hafter⟩, hknows.congr rfl⟩

/-- Asking for a column gives the first one of its key, which is known afterwards. -/
theorem Makes.column {outer stack after : Stack} {spec : QuerySpec} {ledger : Ledger}
    {seen : List Column} {answer : Expr × Bool} (h : Makes outer spec ledger seen stack)
    (c : Column) (hcolumn : Stack.column c.key (.column c) stack = .ok answer after) :
    answer.1 = .column (Naming.first seen c) ∧ Makes outer spec ledger (seen ++ [c]) after := by
  obtain ⟨⟨frame, rfl, hframe⟩, hknows⟩ := h
  obtain ⟨isNew, columns, hok, hafter⟩ := column_of_knows hknows c
  rw [hok, EStateM.Result.ok.injEq] at hcolumn
  obtain ⟨rfl, rfl⟩ := hcolumn
  exact ⟨rfl, ⟨_, rfl, ⟨hframe.flat_eq, hframe.start_eq, hframe.part_eq, hframe.remembers⟩⟩, hafter⟩

/-- Naming a table adds it to the query specification. -/
theorem Makes.addTable {outer stack : Stack} {spec : QuerySpec} {ledger : Ledger}
    {seen : List Column} (h : Makes outer spec ledger seen stack) (table : Table) :
    Makes outer (spec.addTable table) ledger seen
      (stack.mapCurrent fun frame ↦ { frame with part := frame.part.addTable table }) := by
  obtain ⟨⟨frame, rfl, hframe⟩, hknows⟩ := h
  refine ⟨⟨_, rfl, ⟨hframe.flat_eq, ?_, ?_, hframe.remembers⟩⟩, hknows.congr rfl⟩
  · rw [hframe.start_eq, QuerySpec.addTable]
    split <;> rfl
  · simp only [hframe.part_eq, QueryPart.addTable, QuerySpec.addTable, QuerySpec.extend]
    split <;> rfl

/-- The clause that the innermost frame is in says nothing about what it makes. -/
theorem Makes.setClause {outer stack : Stack} {spec : QuerySpec} {ledger : Ledger}
    {seen : List Column} (h : Makes outer spec ledger seen stack) (clause : Clause) :
    Makes outer spec ledger seen
      (stack.mapCurrent fun frame ↦ { frame with clause := clause }) := by
  obtain ⟨⟨frame, rfl, hframe⟩, hknows⟩ := h
  exact ⟨⟨_, rfl, ⟨hframe.flat_eq, hframe.start_eq, hframe.part_eq, hframe.remembers⟩⟩,
    hknows.congr rfl⟩

/-- Work in a clause that succeeds makes what the work itself makes. -/
theorem Makes.withClause {α : Type} {outer stack after : Stack} {spec : QuerySpec} {ledger : Ledger}
    {seen : List Column} {clause : Clause} {body : Stack → α × Stack} {result : α}
    (h : Makes outer spec ledger seen stack)
    (hclause : Stack.withClause clause body stack = .ok result after) :
    ∃ inside last previous, Makes outer spec ledger seen inside ∧ body inside = (result, last) ∧
      after = last.mapCurrent fun frame ↦ { frame with clause := previous } := by
  obtain ⟨frame, rfl, -⟩ := h.exists_frame
  simp only [Stack.withClause, EStateM.Result.ok.injEq] at hclause
  obtain ⟨rfl, rfl⟩ := hclause
  exact ⟨_, _, frame.clause, h.setClause clause, rfl, rfl⟩

/-- When a block is finished, its frame gives the query specification and is gone. -/
theorem Makes.pop {outer stack : Stack} {spec : QuerySpec} {ledger : Ledger} {seen : List Column}
    (h : Makes outer spec ledger seen stack) :
    stack.pop = (some (.spec (spec.extend ledger.selections)), outer) := by
  obtain ⟨frame, rfl, hframe⟩ := h.exists_frame
  rw [Stack.pop, hframe.part_eq]

end Stack

end ObjectSelect
