import ObjectSelect.Proofs.Ledger

/-!
# Positions of answers

Where the answers to a sequence of demands stand in a select list that starts empty. They leave no
position out (`Ledger.mem_positions_answers_iff`). Two of them are at the same position only if the
later demand repeats the earlier one (`Ledger.pairwise_answers`): a new selection is put at the end,
where nothing was before, and one that is found in the ledger was made for a demand that both
repeat. Demands that are made again are given the same answers and no new selections
(`Ledger.answers_again`).
-/

set_option autoImplicit false
set_option relaxedAutoImplicit false

namespace ObjectSelect

/-- Demands that repeat the same demand repeat one another. -/
theorem Demand.repeats_of_common {flat : Bool} {d later first : Demand}
    (h : d.repeats flat first = true) (hlater : later.repeats flat first = true) :
    later.repeats flat d = true := by
  obtain ⟨-, hscope, hexpr⟩ := repeats_iff.mp h
  obtain ⟨hoff, hscope', hexpr'⟩ := repeats_iff.mp hlater
  exact repeats_iff.mpr ⟨hoff, hscope.symm.trans hscope', BEq.trans (BEq.symm hexpr) hexpr'⟩

namespace Ledger

/-! ### No position is left out -/

/-- The positions of the answers are all positions of the select list. -/
theorem mem_positions_answers_iff (flat : Bool) (ds : List Demand) (position : Nat) :
    position ∈ ((empty flat 0).answers ds).map Selection.position ↔
      position < ((empty flat 0).noteAll ds).selections.length := by
  induction ds using List.reverseRecOn with
  | nil => simp [answers]
  | append_singleton ds d ih =>
    have hstart : ((empty flat 0).noteAll ds).start = 0 := noteAll_start _ _
    rw [answers_append, List.map_append, List.mem_append, ih, noteAll_append, noteAll_cons,
      noteAll_nil, answers, answers, List.map_singleton, List.mem_singleton]
    cases hheld : ((empty flat 0).noteAll ds).held? d with
    | some item =>
      obtain ⟨hlt, -⟩ := List.getElem?_eq_some_iff.mp (getElem?_position_of_held hstart hheld).1
      rw [note_of_held hheld, answer_of_held hheld]
      omega
    | none =>
      have hnew : (((empty flat 0).noteAll ds).answer d).position =
          ((empty flat 0).noteAll ds).selections.length := by
        rw [answer_of_not_held hheld, hstart, Nat.zero_add, length_selections]
        rfl
      rw [selections_note_of_not_held hheld, List.length_append, List.length_singleton, hnew]
      omega

/-! ### Answers at the same position -/

section

variable {ledger : Ledger} {first : Demand} {position : Nat}

theorem mem_entries_iff : (first, position) ∈ ledger.entries ↔
    ledger.start ≤ position ∧ ledger.firsts[position - ledger.start]? = some first := by
  rw [entries, List.mem_zipIdx_iff_le_and_getElem?_sub]

theorem mem_entries_note (h : (first, position) ∈ ledger.entries) (d : Demand) :
    (first, position) ∈ (ledger.note d).entries := by
  cases hheld : ledger.held? d with
  | some item => rwa [note_of_held hheld]
  | none =>
    rw [entries_note_of_not_held hheld]
    exact List.mem_append_left _ h

/-- A demand that is given the position of an earlier one repeats it. -/
theorem repeats_of_position_eq (h : (first, position) ∈ ledger.entries) {d : Demand}
    (hposition : (ledger.answer d).position = position) : d.repeats ledger.flat first = true := by
  obtain ⟨hle, hfirst⟩ := mem_entries_iff.mp h
  cases hheld : ledger.held? d with
  | some item =>
    obtain ⟨⟨earlier, held⟩, hfind, rfl⟩ := Option.map_eq_some_iff.mp hheld
    obtain ⟨-, hearlier⟩ := mem_entries_iff.mp (List.mem_of_find?_eq_some hfind)
    rw [answer_of_held hheld] at hposition
    obtain rfl : held = position := hposition
    obtain rfl : first = earlier := Option.some.inj (hfirst.symm.trans hearlier)
    simpa using List.find?_some hfind
  | none =>
    -- A new selection is at the end of the list, where no demand had its selection before.
    obtain ⟨hlt, -⟩ := List.getElem?_eq_some_iff.mp hfirst
    rw [answer_of_not_held hheld] at hposition
    change ledger.start + ledger.firsts.length = position at hposition
    omega

/-- The selection that answers a demand was made for the demand or for one that it repeats. -/
theorem exists_entry_answer (ledger : Ledger) (d : Demand) :
    ∃ first, (first, (ledger.answer d).position) ∈ (ledger.note d).entries ∧
      (first = d ∨ d.repeats ledger.flat first = true) := by
  cases hheld : ledger.held? d with
  | some item =>
    obtain ⟨⟨earlier, held⟩, hfind, rfl⟩ := Option.map_eq_some_iff.mp hheld
    rw [note_of_held hheld, answer_of_held hheld]
    exact ⟨earlier, List.mem_of_find?_eq_some hfind, .inr (by simpa using List.find?_some hfind)⟩
  | none =>
    rw [entries_note_of_not_held hheld, answer_of_not_held hheld]
    exact ⟨d, List.mem_append_right _ List.mem_cons_self, .inl rfl⟩

/-- Later demands that are given the position of an earlier one repeat it. -/
theorem repeats_of_mem_zip (h : (first, position) ∈ ledger.entries) {ds : List Demand}
    {d : Demand} {item : Selection} (hmem : (d, item) ∈ ds.zip (ledger.answers ds))
    (hposition : item.position = position) : d.repeats ledger.flat first = true := by
  induction ds generalizing ledger with
  | nil => simp at hmem
  | cons next rest ih =>
    rw [answers, List.zip_cons_cons] at hmem
    rcases List.mem_cons.mp hmem with heq | hmem
    · obtain ⟨rfl, rfl⟩ := Prod.mk.inj heq
      exact repeats_of_position_eq h hposition
    · have hrest := ih (mem_entries_note h next) hmem
      rwa [note_flat] at hrest

end

/-- Of two demands that are given the same position the later one repeats the earlier one. -/
theorem pairwise_answers (ledger : Ledger) (ds : List Demand) :
    (ds.zip (ledger.answers ds)).Pairwise fun earlier later ↦
      earlier.2.position = later.2.position →
        later.1.repeats ledger.flat earlier.1 = true := by
  induction ds generalizing ledger with
  | nil => simp
  | cons d rest ih =>
    rw [answers, List.zip_cons_cons, List.pairwise_cons]
    constructor
    · rintro ⟨later, item⟩ hmem hposition
      obtain ⟨first, hentry, hfirst⟩ := exists_entry_answer ledger d
      have hlater := repeats_of_mem_zip hentry hmem hposition.symm
      rw [note_flat] at hlater
      rcases hfirst with rfl | hd
      · exact hlater
      · exact Demand.repeats_of_common hd hlater
    · simpa using ih (ledger.note d)

/-! ### Demands made again -/

theorem held?_noteAll_of_held {ledger : Ledger} {d : Demand} {item : Selection}
    (h : ledger.held? d = some item) (ds : List Demand) :
    (ledger.noteAll ds).held? d = some item := by
  rw [held?_noteAll, h, Option.some_or]

/-- A demand that shares is held with its answer once it is answered. -/
theorem held?_note_self {ledger : Ledger} {d : Demand} (h : d.scope ledger.flat ≠ .off) :
    (ledger.note d).held? d = some (ledger.answer d) := by
  have hself : d.repeats ledger.flat d = true := Demand.repeats_iff.mpr ⟨h, rfl, BEq.rfl⟩
  rw [held?_note, if_pos hself, answer]
  cases ledger.held? d <;> rfl

/-- Demands that share are held with their answers once they are answered. -/
theorem forall₂_held?_answers {ledger : Ledger} {ds : List Demand}
    (h : ∀ d ∈ ds, d.scope ledger.flat ≠ .off) :
    List.Forall₂ (fun d item ↦ (ledger.noteAll ds).held? d = some item) ds
      (ledger.answers ds) := by
  induction ds generalizing ledger with
  | nil => exact .nil
  | cons d rest ih =>
    obtain ⟨hd, hrest⟩ := List.forall_mem_cons.mp h
    refine .cons (held?_noteAll_of_held (held?_note_self hd) rest) (ih ?_)
    rwa [note_flat]

/-- Demands that are held are given what is held, and nothing is selected for them. -/
theorem answers_of_held {ledger : Ledger} {ds : List Demand} {items : List Selection}
    (h : List.Forall₂ (fun d item ↦ ledger.held? d = some item) ds items) :
    ledger.answers ds = items ∧ ledger.noteAll ds = ledger := by
  induction h with
  | nil => exact ⟨rfl, rfl⟩
  | cons hd _ ih =>
    rw [answers, noteAll_cons, note_of_held hd, answer_of_held hd, ih.1, ih.2]
    exact ⟨rfl, rfl⟩

/-- Demands that share and are made again, whatever was asked for in between, are given the answers
they were given before, and nothing is selected for them. -/
theorem answers_again {ledger : Ledger} {ds : List Demand}
    (h : ∀ d ∈ ds, d.scope ledger.flat ≠ .off) (between : List Demand) :
    ((ledger.noteAll ds).noteAll between).answers ds = ledger.answers ds ∧
      ((ledger.noteAll ds).noteAll between).noteAll ds = (ledger.noteAll ds).noteAll between :=
  answers_of_held <| (forall₂_held?_answers h).imp fun _ _ hheld ↦
    held?_noteAll_of_held hheld between

end Ledger

end ObjectSelect
