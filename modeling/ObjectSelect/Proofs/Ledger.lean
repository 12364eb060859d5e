import Mathlib.Data.List.Basic
import Mathlib.Data.List.Forall2
import Mathlib.Data.List.Induction
import ObjectSelect.Expr.Basic
import ObjectSelect.FetchNode
import ObjectSelect.Proofs.Distinct
import ObjectSelect.Proofs.Equality

/-!
# Ledgers of selections

What a block answers to a request for a selection depends on the requests made before, and on
nothing else: a `Demand` that repeats an earlier one of its scope is given the selection of that
one, and every other demand is given a new selection at the end of the select list. A `Ledger` keeps
the demands that were given new selections, in their order, so it says what the select list is and
what the next answer will be without any table.

`Ledger.held?_noteAll_empty` and `Ledger.selections_noteAll_empty` say in terms of a sequence of
demands alone what the next demand is answered and what the select list is, and
`Ledger.firsts_noteAll_append_singleton` which demands have selections of their own. For a select
list that starts empty, `Ledger.forall₂_answers` says where the answers stand in it. What an answer
carries is the expression and the type of the demand that it was made for, `Demand.source`
(`Ledger.exists_answer_eq`, `Ledger.forall₂_answers_source`).
-/

set_option autoImplicit false
set_option relaxedAutoImplicit false

namespace ObjectSelect

/-- A request for a selection: an expression, the type to read it at, and the node of the fetch tree
that asks for it. -/
structure Demand where
  expr : Expr
  type : ValueType
  node : Option FetchNode

namespace Demand

/-- The scope of a demand, in a block that shares throughout if `flat` is set. -/
def scope (flat : Bool) (d : Demand) : Scope :=
  Scope.of flat d.node

/-- Whether a demand asks again for what an earlier one asked for: the same expression in the same
scope. A demand without scope repeats none. -/
def repeats (flat : Bool) (d earlier : Demand) : Bool :=
  d.scope flat != .off && earlier.scope flat == d.scope flat && earlier.expr == d.expr

/-- The selection made for a demand at a position. -/
def selectionAt (d : Demand) (position : Nat) : Selection :=
  ⟨position, position + 1, d.expr, d.type⟩

theorem repeats_iff {flat : Bool} {d earlier : Demand} : d.repeats flat earlier = true ↔
    d.scope flat ≠ .off ∧ earlier.scope flat = d.scope flat ∧ (earlier.expr == d.expr) = true := by
  simp [repeats, and_assoc]

/-- A demand that repeats another one repeats what that one repeats, and nothing else. -/
theorem repeats_congr {flat : Bool} {d other : Demand} (h : d.repeats flat other = true)
    (earlier : Demand) : d.repeats flat earlier = other.repeats flat earlier := by
  obtain ⟨-, hscope, hexpr⟩ := repeats_iff.mp h
  have hsame : (earlier.expr == d.expr) = (earlier.expr == other.expr) :=
    BEq.congr_right (BEq.symm hexpr)
  simp [repeats, hscope, hsame]

end Demand

/-- The demands of a block that were given selections of their own, in the order of these. The first
of the selections is at position `start`. -/
structure Ledger where
  flat : Bool
  start : Nat
  firsts : List Demand

namespace Ledger

/-- The ledger of a block before any demand. -/
def empty (flat : Bool) (start : Nat) : Ledger :=
  ⟨flat, start, []⟩

/-- The demands that were given selections, each with the position of its selection. -/
def entries (ledger : Ledger) : List (Demand × Nat) :=
  ledger.firsts.zipIdx ledger.start

/-- The selections given, in order. -/
def selections (ledger : Ledger) : List Selection :=
  ledger.entries.map fun entry ↦ entry.1.selectionAt entry.2

/-- The selection of the demand that `d` repeats, if it repeats one. -/
def held? (ledger : Ledger) (d : Demand) : Option Selection :=
  (ledger.entries.find? fun entry ↦ d.repeats ledger.flat entry.1).map
    fun entry ↦ entry.1.selectionAt entry.2

/-- The selection that a demand is given. -/
def answer (ledger : Ledger) (d : Demand) : Selection :=
  (ledger.held? d).getD (d.selectionAt (ledger.start + ledger.firsts.length))

/-- The ledger after a demand. -/
def note (ledger : Ledger) (d : Demand) : Ledger :=
  if (ledger.held? d).isSome then ledger else { ledger with firsts := ledger.firsts ++ [d] }

/-- The ledger after demands made one after the other. -/
def noteAll (ledger : Ledger) (ds : List Demand) : Ledger :=
  ds.foldl note ledger

/-- The selections that demands made one after the other are given. -/
def answers : Ledger → List Demand → List Selection
  | _, [] => []
  | ledger, d :: rest => ledger.answer d :: (ledger.note d).answers rest

@[simp]
theorem flat_empty (flat : Bool) (start : Nat) : (empty flat start).flat = flat := rfl

@[simp]
theorem start_empty (flat : Bool) (start : Nat) : (empty flat start).start = start := rfl

@[simp]
theorem firsts_empty (flat : Bool) (start : Nat) : (empty flat start).firsts = [] := rfl

@[simp]
theorem selections_empty (flat : Bool) (start : Nat) : (empty flat start).selections = [] := rfl

@[simp]
theorem held?_empty (flat : Bool) (start : Nat) (d : Demand) : (empty flat start).held? d = none :=
  rfl

@[simp]
theorem note_flat (ledger : Ledger) (d : Demand) : (ledger.note d).flat = ledger.flat := by
  unfold note
  split <;> rfl

@[simp]
theorem note_start (ledger : Ledger) (d : Demand) : (ledger.note d).start = ledger.start := by
  unfold note
  split <;> rfl

@[simp]
theorem noteAll_nil (ledger : Ledger) : ledger.noteAll [] = ledger := rfl

@[simp]
theorem noteAll_cons (ledger : Ledger) (d : Demand) (rest : List Demand) :
    ledger.noteAll (d :: rest) = (ledger.note d).noteAll rest := rfl

theorem noteAll_append (ledger : Ledger) (ds rest : List Demand) :
    ledger.noteAll (ds ++ rest) = (ledger.noteAll ds).noteAll rest := by
  simp [noteAll]

@[simp]
theorem noteAll_flat (ledger : Ledger) (ds : List Demand) :
    (ledger.noteAll ds).flat = ledger.flat := by
  induction ds generalizing ledger with
  | nil => rfl
  | cons d rest ih => rw [noteAll_cons, ih, note_flat]

@[simp]
theorem noteAll_start (ledger : Ledger) (ds : List Demand) :
    (ledger.noteAll ds).start = ledger.start := by
  induction ds generalizing ledger with
  | nil => rfl
  | cons d rest ih => rw [noteAll_cons, ih, note_start]

@[simp]
theorem length_answers (ledger : Ledger) (ds : List Demand) :
    (ledger.answers ds).length = ds.length := by
  induction ds generalizing ledger with
  | nil => rfl
  | cons d rest ih => simp [answers, ih]

theorem answers_append (ledger : Ledger) (ds rest : List Demand) :
    ledger.answers (ds ++ rest) = ledger.answers ds ++ (ledger.noteAll ds).answers rest := by
  induction ds generalizing ledger with
  | nil => rfl
  | cons d ds ih => simp [answers, ih]

@[simp]
theorem length_selections (ledger : Ledger) :
    ledger.selections.length = ledger.firsts.length := by
  simp [selections, entries]

theorem map_fst_entries (ledger : Ledger) : ledger.entries.map Prod.fst = ledger.firsts := by
  simp [entries]

theorem note_of_held {ledger : Ledger} {d : Demand} {item : Selection}
    (h : ledger.held? d = some item) : ledger.note d = ledger := by
  simp [note, h]

theorem answer_of_held {ledger : Ledger} {d : Demand} {item : Selection}
    (h : ledger.held? d = some item) : ledger.answer d = item := by
  simp [answer, h]

theorem note_of_not_held {ledger : Ledger} {d : Demand} (h : ledger.held? d = none) :
    ledger.note d = { ledger with firsts := ledger.firsts ++ [d] } := by
  simp [note, h]

theorem answer_of_not_held {ledger : Ledger} {d : Demand} (h : ledger.held? d = none) :
    ledger.answer d = d.selectionAt (ledger.start + ledger.firsts.length) := by
  simp [answer, h]

theorem entries_note_of_not_held {ledger : Ledger} {d : Demand} (h : ledger.held? d = none) :
    (ledger.note d).entries = ledger.entries ++ [(d, ledger.start + ledger.firsts.length)] := by
  simp [note_of_not_held h, entries, List.zipIdx_append]

/-- A demand that is given a new selection gets it at the end of the select list. -/
theorem selections_note_of_not_held {ledger : Ledger} {d : Demand} (h : ledger.held? d = none) :
    (ledger.note d).selections = ledger.selections ++ [ledger.answer d] := by
  simp [selections, entries_note_of_not_held h, answer_of_not_held h]

theorem held?_of_repeats {ledger : Ledger} {d other : Demand}
    (h : d.repeats ledger.flat other = true) : ledger.held? d = ledger.held? other := by
  simp only [held?, Demand.repeats_congr h]

/-- A demand that is repeated later is held from then on. -/
theorem held?_note (ledger : Ledger) (d later : Demand) :
    (ledger.note d).held? later =
      (ledger.held? later).or
        (if later.repeats ledger.flat d then some (ledger.answer d) else none) := by
  cases hd : ledger.held? d with
  | none =>
    have hfind : (ledger.note d).held? later =
        ((ledger.entries ++ [(d, ledger.start + ledger.firsts.length)]).find?
          fun entry ↦ later.repeats ledger.flat entry.1).map
            fun entry ↦ entry.1.selectionAt entry.2 := by
      rw [held?, entries_note_of_not_held hd, note_flat]
    rw [hfind, List.find?_append, Option.map_or, answer_of_not_held hd, held?]
    cases h : later.repeats ledger.flat d <;> simp [h]
  | some item =>
    rw [note_of_held hd]
    cases hrepeats : later.repeats ledger.flat d with
    | false => simp
    | true => simp [held?_of_repeats hrepeats, hd]

/-- After a sequence of demands a demand is given what was held before, or else the answer to the
first demand of the sequence that it repeats. -/
theorem held?_noteAll (ledger : Ledger) (ds : List Demand) (d : Demand) :
    (ledger.noteAll ds).held? d =
      (ledger.held? d).or
        ((ds.findIdx? (d.repeats ledger.flat)).bind ((ledger.answers ds)[·]?)) := by
  induction ds generalizing ledger with
  | nil => simp
  | cons first rest ih =>
    rw [noteAll_cons, ih, held?_note, note_flat, Option.or_assoc, answers, List.findIdx?_cons]
    cases d.repeats ledger.flat first with
    | true => simp
    | false => cases rest.findIdx? (d.repeats ledger.flat) <;> simp

/-- The indices of the demands of a sequence that repeat none before them. -/
def newIndices (flat : Bool) (ds : List Demand) : List Nat :=
  (List.range ds.length).filter fun i ↦ ds[i]?.all fun d ↦ !(ds.take i).any (d.repeats flat)

theorem newIndices_append_singleton (flat : Bool) (ds : List Demand) (d : Demand) :
    newIndices flat (ds ++ [d]) =
      newIndices flat ds ++ if ds.any (d.repeats flat) then [] else [ds.length] := by
  have hold : (List.range ds.length).filter
      (fun i ↦ (ds ++ [d])[i]?.all fun d' ↦ !((ds ++ [d]).take i).any (d'.repeats flat)) =
        newIndices flat ds := by
    refine List.filter_congr fun i hi ↦ ?_
    have hlt : i < ds.length := List.mem_range.mp hi
    rw [List.getElem?_append_left hlt, List.take_append_of_le_length (Nat.le_of_lt hlt)]
  rw [newIndices, List.length_append, List.length_singleton, List.range_succ, List.filter_append,
    hold]
  cases h : ds.any (d.repeats flat) <;> simp [h]

theorem lt_of_mem_newIndices {flat : Bool} {ds : List Demand} {i : Nat}
    (h : i ∈ newIndices flat ds) : i < ds.length :=
  List.mem_range.mp (List.mem_filter.mp h).1

/-- What a block that has answered a sequence of demands holds for another one is the answer to the
first demand of the sequence that it repeats. -/
theorem held?_noteAll_empty (flat : Bool) (start : Nat) (ds : List Demand) (d : Demand) :
    ((empty flat start).noteAll ds).held? d =
      (ds.findIdx? (d.repeats flat)).bind (((empty flat start).answers ds)[·]?) := by
  rw [held?_noteAll, held?_empty, Option.none_or, flat_empty]

/-- A demand has a selection already just when it repeats one of the demands before. -/
theorem isSome_held?_noteAll_empty (flat : Bool) (start : Nat) (ds : List Demand) (d : Demand) :
    (((empty flat start).noteAll ds).held? d).isSome = ds.any (d.repeats flat) := by
  rw [held?_noteAll_empty]
  cases hidx : ds.findIdx? (d.repeats flat) with
  | none =>
    have hany : ds.any (d.repeats flat) = false := by
      simpa [List.findIdx?_eq_none_iff] using hidx
    rw [hany]
    rfl
  | some j =>
    obtain ⟨hj, hrepeats, -⟩ := List.findIdx?_eq_some_iff_getElem.mp hidx
    have hany : ds.any (d.repeats flat) = true :=
      List.any_eq_true.mpr ⟨ds[j], List.getElem_mem hj, hrepeats⟩
    rw [hany, Option.bind_some, List.getElem?_eq_getElem (by rwa [length_answers])]
    rfl

/-- The selections of a block that has answered a sequence of demands are the answers to those that
repeat none, in the order of the demands. -/
theorem selections_noteAll_empty (flat : Bool) (start : Nat) (ds : List Demand) :
    ((empty flat start).noteAll ds).selections =
      (newIndices flat ds).filterMap (((empty flat start).answers ds)[·]?) := by
  induction ds using List.reverseRecOn with
  | nil => rfl
  | append_singleton ds d ih =>
    have hold : (newIndices flat ds).filterMap
        ((((empty flat start).answers ds) ++
          ((empty flat start).noteAll ds).answers [d])[·]?) =
        (newIndices flat ds).filterMap (((empty flat start).answers ds)[·]?) := by
      refine List.filterMap_congr fun i hi ↦ List.getElem?_append_left ?_
      rw [length_answers]
      exact lt_of_mem_newIndices hi
    rw [newIndices_append_singleton, List.filterMap_append, answers_append, hold, ← ih,
      noteAll_append, noteAll_cons, noteAll_nil]
    have hany := isSome_held?_noteAll_empty flat start ds d
    cases hheld : ((empty flat start).noteAll ds).held? d with
    | none => simp [selections_note_of_not_held hheld, ← hany, hheld, answers]
    | some item => simp [note_of_held hheld, ← hany, hheld]

/-- As many selections are made as there are demands that repeat none. -/
theorem length_firsts_noteAll_empty (flat : Bool) (start : Nat) (ds : List Demand) :
    ((empty flat start).noteAll ds).firsts.length = (newIndices flat ds).length := by
  rw [← length_selections, selections_noteAll_empty, List.filterMap_length_eq_length]
  intro i hi
  simpa using lt_of_mem_newIndices hi

/-! ### The demands with selections of their own -/

/-- A demand is given a selection of its own unless it repeats one of those before it. -/
theorem firsts_noteAll_append_singleton (flat : Bool) (start : Nat) (ds : List Demand)
    (d : Demand) : ((empty flat start).noteAll (ds ++ [d])).firsts =
      ((empty flat start).noteAll ds).firsts ++ if ds.any (d.repeats flat) then [] else [d] := by
  rw [noteAll_append, noteAll_cons, noteAll_nil, note, isSome_held?_noteAll_empty]
  split <;> simp

/-- A block that shares throughout gives selections to the demands whose expressions are new. -/
theorem firsts_shared (start : Nat) (ds : List Demand) :
    ((empty true start).noteAll ds).firsts =
      ds.eraseDupsBy fun later earlier ↦ earlier.expr == later.expr := by
  induction ds using List.reverseRecOn with
  | nil => rfl
  | append_singleton ds d ih =>
    rw [firsts_noteAll_append_singleton, eraseDupsBy_append_singleton Demand.expr, ih]
    rfl

/-- However a block shares, the first demand for each expression has a selection of its own. -/
theorem eraseDupsBy_firsts (flat : Bool) (start : Nat) (ds : List Demand) :
    ((empty flat start).noteAll ds).firsts.eraseDupsBy
        (fun later earlier ↦ earlier.expr == later.expr) =
      ds.eraseDupsBy fun later earlier ↦ earlier.expr == later.expr := by
  induction ds using List.reverseRecOn with
  | nil => rfl
  | append_singleton ds d ih =>
    have hany : ((empty flat start).noteAll ds).firsts.any (·.expr == d.expr) =
        ds.any (·.expr == d.expr) := by
      rw [← any_eraseDupsBy Demand.expr, ih, any_eraseDupsBy Demand.expr]
    rw [firsts_noteAll_append_singleton, eraseDupsBy_append_singleton Demand.expr]
    cases hrepeats : ds.any (d.repeats flat) with
    | true =>
      obtain ⟨earlier, hmem, hearlier⟩ := List.any_eq_true.mp hrepeats
      have hexpr : ds.any (·.expr == d.expr) = true :=
        List.any_eq_true.mpr ⟨earlier, hmem, (Demand.repeats_iff.mp hearlier).2.2⟩
      simp [hexpr, ih]
    | false =>
      simp only [Bool.false_eq_true, if_false]
      rw [eraseDupsBy_append_singleton Demand.expr, hany, ih]

/-! ### Where the answers are -/

theorem selections_prefix_note (ledger : Ledger) (d : Demand) :
    ledger.selections <+: (ledger.note d).selections := by
  cases h : ledger.held? d with
  | some item => exact ⟨[], by rw [note_of_held h, List.append_nil]⟩
  | none =>
    rw [selections_note_of_not_held h]
    exact List.prefix_append _ _

/-- Later demands only add selections at the end. -/
theorem selections_prefix_noteAll (ledger : Ledger) (ds : List Demand) :
    ledger.selections <+: (ledger.noteAll ds).selections := by
  induction ds generalizing ledger with
  | nil => exact List.prefix_rfl
  | cons d rest ih => exact (selections_prefix_note ledger d).trans (ih (ledger.note d))

theorem getElem?_selections {ledger : Ledger} (hstart : ledger.start = 0) (i : Nat) :
    ledger.selections[i]? = ledger.firsts[i]?.map (·.selectionAt i) := by
  simp [selections, entries, hstart, Option.map_map, Function.comp_def]

theorem getElem?_position_of_held {ledger : Ledger} (hstart : ledger.start = 0) {d : Demand}
    {item : Selection} (h : ledger.held? d = some item) :
    ledger.selections[item.position]? = some item ∧ (item.expr == d.expr) = true := by
  simp only [held?, Option.map_eq_some_iff] at h
  obtain ⟨⟨earlier, position⟩, hfind, rfl⟩ := h
  have hrepeats : d.repeats ledger.flat earlier = true := by simpa using List.find?_some hfind
  have hmem := List.mem_of_find?_eq_some hfind
  rw [entries, hstart, List.mem_zipIdx_iff_getElem?] at hmem
  refine ⟨?_, (Demand.repeats_iff.mp hrepeats).2.2⟩
  have hfirst : ledger.firsts[position]? = some earlier := hmem
  rw [getElem?_selections hstart, Demand.selectionAt, hfirst]
  rfl

/-- The answer to a demand is a selection of the list, at its position, for the same expression. -/
theorem getElem?_position_answer {ledger : Ledger} (hstart : ledger.start = 0) (d : Demand) :
    (ledger.note d).selections[(ledger.answer d).position]? = some (ledger.answer d) ∧
      ((ledger.answer d).expr == d.expr) = true := by
  cases h : ledger.held? d with
  | some item =>
    rw [note_of_held h, answer_of_held h]
    exact getElem?_position_of_held hstart h
  | none =>
    rw [selections_note_of_not_held h, answer_of_not_held h, hstart, Nat.zero_add]
    refine ⟨?_, BEq.rfl⟩
    rw [← length_selections]
    simp [Demand.selectionAt]

/-- The answers to a sequence of demands are selections of the final list, each at its position and
for the expression demanded. -/
theorem forall₂_answers {ledger : Ledger} (hstart : ledger.start = 0) (ds : List Demand) :
    List.Forall₂ (fun d item ↦ (ledger.noteAll ds).selections[item.position]? = some item ∧
      (item.expr == d.expr) = true) ds (ledger.answers ds) := by
  induction ds generalizing ledger with
  | nil => exact .nil
  | cons d rest ih =>
    obtain ⟨hplace, hexpr⟩ := getElem?_position_answer hstart d
    obtain ⟨later, hlater⟩ := selections_prefix_noteAll (ledger.note d) rest
    obtain ⟨hlt, -⟩ := List.getElem?_eq_some_iff.mp hplace
    refine .cons ⟨?_, hexpr⟩ (ih (by rw [note_start, hstart]))
    rw [noteAll_cons, ← hlater, List.getElem?_append_left hlt, hplace]

theorem exists_selection_of_mem {ledger : Ledger} (hstart : ledger.start = 0) {ds : List Demand}
    {d : Demand} (h : d ∈ ds) :
    ∃ item ∈ (ledger.noteAll ds).selections, (item.expr == d.expr) = true := by
  obtain ⟨before, after, rfl⟩ := List.append_of_mem h
  have hbefore : (ledger.noteAll before).start = 0 := by rw [noteAll_start, hstart]
  obtain ⟨hplace, hexpr⟩ := getElem?_position_answer hbefore d
  rw [noteAll_append, noteAll_cons]
  exact ⟨_, (selections_prefix_noteAll _ after).subset (List.mem_of_getElem? hplace), hexpr⟩

end Ledger

/-! ### The demand that an answer was made for -/

namespace Demand

/-- The demand whose selection answers `d` after the demands `ds`: the first of them that `d`
repeats, or `d` itself if it repeats none. -/
def source (flat : Bool) (ds : List Demand) (d : Demand) : Demand :=
  (ds.find? (d.repeats flat)).getD d

/-- What answers a demand is for the same expression. -/
theorem source_expr_beq (flat : Bool) (ds : List Demand) (d : Demand) :
    ((d.source flat ds).expr == d.expr) = true := by
  rw [source]
  cases hfind : ds.find? (d.repeats flat) with
  | none => exact BEq.rfl
  | some earlier => exact (repeats_iff.mp (List.find?_some hfind)).2.2

/-- A demand repeats itself as soon as it repeats anything. -/
theorem repeats_self {flat : Bool} {d earlier : Demand} (h : d.repeats flat earlier = true) :
    d.repeats flat d = true :=
  repeats_iff.mpr ⟨(repeats_iff.mp h).1, rfl, BEq.rfl⟩

/-- Demands from `d` on do not matter for what answers `d`. -/
theorem source_append_cons (flat : Bool) (before rest : List Demand) (d : Demand) :
    d.source flat (before ++ d :: rest) = d.source flat before := by
  rw [source, source, List.find?_append, List.find?_cons]
  cases before.find? (d.repeats flat) with
  | some earlier => rfl
  | none =>
    cases hself : d.repeats flat d with
    | true => rfl
    | false =>
      have hrest : rest.find? (d.repeats flat) = none := by
        rw [List.find?_eq_none]
        intro later _ hlater
        rw [repeats_self hlater] at hself
        exact Bool.noConfusion hself
      simp [hrest]

end Demand

namespace Ledger

theorem find?_firsts (ledger : Ledger) (d : Demand) :
    ledger.firsts.find? (d.repeats ledger.flat) =
      (ledger.entries.find? fun entry ↦ d.repeats ledger.flat entry.1).map Prod.fst := by
  rw [← map_fst_entries, List.find?_map]
  rfl

/-- The first demand that was given a selection of its own and that `d` repeats is the first of all
demands that `d` repeats. -/
theorem find?_firsts_noteAll_empty (flat : Bool) (start : Nat) (ds : List Demand) (d : Demand) :
    ((empty flat start).noteAll ds).firsts.find? (d.repeats flat) = ds.find? (d.repeats flat) := by
  induction ds using List.reverseRecOn with
  | nil => rfl
  | append_singleton ds last ih =>
    rw [firsts_noteAll_append_singleton, List.find?_append, List.find?_append, ih]
    cases hany : ds.any (last.repeats flat) with
    | false => simp
    | true =>
      cases hrepeats : d.repeats flat last with
      | false => simp [hrepeats]
      | true =>
        -- What `last` repeats is repeated by `d` as well, so it comes before `last`.
        obtain ⟨earlier, hmem, hearlier⟩ := List.any_eq_true.mp hany
        rw [← Demand.repeats_congr hrepeats] at hearlier
        obtain ⟨found, hfound⟩ := Option.isSome_iff_exists.mp
          (List.find?_isSome.mpr ⟨earlier, hmem, hearlier⟩)
        rw [hfound, Option.some_or, Option.some_or]

/-- The answer to a demand is the selection of the demand that it has its answer from. -/
theorem exists_answer_eq (flat : Bool) (start : Nat) (ds : List Demand) (d : Demand) :
    ∃ position, ((empty flat start).noteAll ds).answer d =
      (d.source flat ds).selectionAt position := by
  have hfind := find?_firsts ((empty flat start).noteAll ds) d
  rw [noteAll_flat, flat_empty, find?_firsts_noteAll_empty] at hfind
  rw [Demand.source, hfind, answer, held?, noteAll_flat, flat_empty]
  cases ((empty flat start).noteAll ds).entries.find? fun entry ↦ d.repeats flat entry.1 with
  | some entry => exact ⟨entry.2, rfl⟩
  | none => exact ⟨_, rfl⟩

/-- Each of the answers to a sequence of demands is the selection of the demand that it comes
from. -/
theorem forall₂_answers_source (flat : Bool) (start : Nat) (ds : List Demand) :
    List.Forall₂ (fun d item ↦ ∃ position, item = (d.source flat ds).selectionAt position) ds
      ((empty flat start).answers ds) := by
  suffices h : ∀ rest before : List Demand, List.Forall₂
      (fun d item ↦ ∃ position, item = (d.source flat (before ++ rest)).selectionAt position) rest
      (((empty flat start).noteAll before).answers rest) from h ds []
  intro rest
  induction rest with
  | nil => exact fun _ ↦ .nil
  | cons d rest ih =>
    intro before
    refine .cons ?_ ?_
    · rw [Demand.source_append_cons]
      exact exists_answer_eq flat start before d
    · have hrest := ih (before ++ [d])
      rwa [List.append_assoc, noteAll_append] at hrest

end Ledger

end ObjectSelect
