import ObjectSelect.Proofs.Resolver

/-!
# Tables and select list

A frame keeps the selections of its block twice: in the select list, by position, and in the tables
of its cache, by scope and expression. `Frame.Coherent` says that the two agree. Every entry of a
table stands in the list, at its position and among the selections that were added, no two entries
share a position, and the list is as long as the tables say once the selections that are in no table
are counted.

A request writes to the two one after the other. After the first write the list has a selection that
is in no table (`Coherent.extend`), and the second puts this one into the table of its scope
(`Coherent.remember`). Neither leaves the frame incoherent, so no request does (`Coherent.answer`),
and no sequence of requests (`Coherent.answerAll`). What this says of a frame from its start on is
`Frame.answerAll_coherent`.
-/

set_option autoImplicit false
set_option relaxedAutoImplicit false

namespace ObjectSelect

theorem Scope.of_eq_off_iff {flat : Bool} {node : Option FetchNode} :
    Scope.of flat node = .off ↔ (!flat && node.isNone) = true := by
  cases flat <;> cases node <;> simp [Scope.of]

namespace Frame

/-! ### Agreement of tables and list -/

/-- A frame whose tables and select list agree. The list is that of `spec` with the selections
`added` after it, and `loose` of these are in no table. An entry is given with the scope of its
table. -/
structure Coherent (frame : Frame) (spec : QuerySpec) (added : List Selection) (loose : Nat) :
    Prop where
  part_eq : frame.part = .spec (spec.extend added)
  /-- There is no table yet, or there is one for the block if the block shares throughout, and one
  for each fetch root otherwise. -/
  fits : frame.cache.Fits frame.flat
  /-- What is remembered for an expression selects it, and is in the list at its position, after
  the selections of `spec`. -/
  placed : ∀ scope e item, (scope, e, item) ∈ frame.cache.entries →
    item.expr = e ∧ spec.count ≤ item.position ∧ item.position < (spec.extend added).count ∧
      (spec.extend added).selections[item.position]? = some item
  /-- What is remembered for an expression is found for it. -/
  found : ∀ scope e item, (scope, e, item) ∈ frame.cache.entries →
    frame.cache.find? scope e = some item
  /-- Two entries are in different scopes or for unequal expressions, and at different
  positions. -/
  apart : frame.cache.entries.Pairwise fun one other ↦
    (one.1 ≠ other.1 ∨ (one.2.1 == other.2.1) = false) ∧ one.2.2.position ≠ other.2.2.position
  count_eq : (spec.extend added).count = spec.count + (frame.cache.entries.length + loose)

variable {frame : Frame} {spec : QuerySpec} {added : List Selection} {loose : Nat}

theorem coherent_start (spec : QuerySpec) (flat : Bool) :
    (start (.spec spec) flat).Coherent spec [] 0 where
  part_eq := by rw [QuerySpec.extend_nil, start]
  fits := trivial
  placed _ _ _ hmem := by cases hmem
  found _ _ _ hmem := by cases hmem
  apart := .nil
  count_eq := by rw [QuerySpec.extend_nil]; rfl

/-- Making the table of a scope adds no entry. -/
theorem Coherent.of_ready (h : frame.Coherent spec added loose) {scope : Scope}
    {made : SelectionCache} (hready : frame.cache.ready scope = .ok made)
    (hfits : made.Fits frame.flat) : { frame with cache := made }.Coherent spec added loose := by
  have hentries : made.entries = frame.cache.entries :=
    (SelectionCache.ready_eq_ok_iff.mp hready).entries_eq
  constructor
  case part_eq => exact h.part_eq
  case fits => exact hfits
  case placed => simpa only [hentries] using h.placed
  case found =>
    intro scope' e item hmem
    rw [SelectionCache.find?_of_ready hready]
    exact h.found scope' e item (hentries ▸ hmem)
  case apart => simpa only [hentries] using h.apart
  case count_eq => simpa only [hentries] using h.count_eq

/-- A selection that is only put at the end of the list is one more in no table. -/
theorem Coherent.extend (h : frame.Coherent spec added loose) (item : Selection) :
    { frame with part := .spec (spec.extend (added ++ [item])) }.Coherent spec (added ++ [item])
      (loose + 1) := by
  have hcount : (spec.extend (added ++ [item])).count = (spec.extend added).count + 1 := by
    rw [QuerySpec.count_extend, QuerySpec.count_extend, List.length_append, List.length_singleton,
      Nat.add_assoc]
  constructor
  case part_eq => rfl
  case fits => exact h.fits
  case placed =>
    intro scope e held hmem
    obtain ⟨hexpr, hstart, hlt, hplace⟩ := h.placed scope e held hmem
    refine ⟨hexpr, hstart, by omega, ?_⟩
    rw [← QuerySpec.extend_extend, QuerySpec.extend, List.getElem?_append_left hlt, hplace]
  case found => exact h.found
  case apart => exact h.apart
  case count_eq =>
    calc (spec.extend (added ++ [item])).count
        = spec.count + (frame.cache.entries.length + loose) + 1 := by rw [hcount, h.count_eq]
      _ = spec.count + (frame.cache.entries.length + (loose + 1)) := by omega

/-- A selection of the list that is in no table, and at the position of no entry, can be remembered
for its expression in a scope where nothing is. -/
theorem Coherent.remember (h : frame.Coherent spec added (loose + 1)) {scope : Scope} {e : Expr}
    {item : Selection} (htable : (frame.cache.table? scope).isSome = true)
    (hnew : frame.cache.find? scope e = none) (hexpr : item.expr = e)
    (hstart : spec.count ≤ item.position)
    (hplace : (spec.extend added).selections[item.position]? = some item)
    (hfree : ∀ entry ∈ frame.cache.entries, item.position ≠ entry.2.2.position) :
    { frame with cache := frame.cache.put scope e item }.Coherent spec added loose := by
  have hperm := SelectionCache.entries_put_perm htable hnew item
  have hready : frame.cache.ready scope = .ok frame.cache :=
    SelectionCache.ready_eq_ok_iff.mpr (.held htable)
  have hscope : scope ≠ .off := by
    rintro rfl
    simp [SelectionCache.table?] at htable
  -- Entries of the scope for an equal expression would have been found.
  have hunequal : ∀ e' item', (scope, e', item') ∈ frame.cache.entries → (e == e') = false := by
    intro e' item' hmem
    rw [Bool.eq_false_iff]
    intro hsame
    rw [SelectionCache.find?_congr hsame, h.found scope e' item' hmem] at hnew
    cases hnew
  constructor
  case part_eq => exact h.part_eq
  case fits => exact SelectionCache.fits_put h.fits scope e item
  case placed =>
    intro scope' e' item' hmem
    rcases List.mem_cons.mp (hperm.mem_iff.mp hmem) with heq | hold
    · cases heq
      obtain ⟨hlt, -⟩ := List.getElem?_eq_some_iff.mp hplace
      exact ⟨hexpr, hstart, hlt, hplace⟩
    · exact h.placed scope' e' item' hold
  case found =>
    intro scope' e' item' hmem
    rw [SelectionCache.find?_put hready hscope]
    rcases List.mem_cons.mp (hperm.mem_iff.mp hmem) with heq | hold
    · cases heq
      exact if_pos ⟨rfl, BEq.rfl⟩
    · rw [if_neg]
      · exact h.found scope' e' item' hold
      · rintro ⟨rfl, hsame⟩
        rw [BEq.comm, hunequal e' item' hold] at hsame
        cases hsame
  case apart =>
    rw [hperm.pairwise_iff]
    · refine List.pairwise_cons.mpr ⟨?_, h.apart⟩
      rintro ⟨scope', e', item'⟩ hmem
      refine ⟨?_, hfree _ hmem⟩
      by_cases hsame : scope = scope'
      · exact .inr (hunequal e' item' (hsame ▸ hmem))
      · exact .inl hsame
    · rintro one other ⟨hkeys, hpositions⟩
      exact ⟨hkeys.imp Ne.symm fun hne ↦ by rwa [BEq.comm], hpositions.symm⟩
  case count_eq =>
    have hold := h.count_eq
    rw [hperm.length_eq, List.length_cons]
    omega

/-- So the selection for a new demand can be put at the end of the list and into the table of a
scope. -/
theorem Coherent.extend_remember (h : frame.Coherent spec added loose) {scope : Scope} {d : Demand}
    (htable : (frame.cache.table? scope).isSome = true)
    (hnew : frame.cache.find? scope d.expr = none) :
    let item := d.selectionAt (spec.extend added).count
    { frame with
      part := .spec (spec.extend (added ++ [item]))
      cache := frame.cache.put scope d.expr item }.Coherent spec (added ++ [item]) loose := by
  intro item
  have hstart : spec.count ≤ item.position := Nat.le.intro (QuerySpec.count_extend spec added).symm
  have hplace : (spec.extend (added ++ [item])).selections[item.position]? = some item := by
    rw [← QuerySpec.extend_extend]
    exact List.getElem?_concat_length
  -- Whatever has an entry was in the list before, so it is not at the end.
  have hfree : ∀ entry ∈ frame.cache.entries, item.position ≠ entry.2.2.position := by
    rintro ⟨scope', e, held⟩ hmem
    obtain ⟨-, -, hlt, -⟩ := h.placed scope' e held hmem
    exact Nat.ne_of_gt hlt
  exact (h.extend item).remember htable hnew rfl hstart hplace hfree

/-! ### Requests -/

/-- A request keeps tables and list in agreement. It takes no entry away, and its answer is an entry
of its scope, if it has one; if it has none, there is one more selection in no table. -/
theorem Coherent.answer (h : frame.Coherent spec added loose) (d : Demand) :
    ∃ item part cache longer,
      Frame.answer d frame = .ok item { frame with part := part, cache := cache } ∧
      { frame with part := part, cache := cache }.Coherent spec longer
        (loose + if !frame.flat && d.node.isNone then 1 else 0) ∧
      frame.cache.entries ⊆ cache.entries ∧
      (d.scope frame.flat ≠ .off →
        ∃ e, (d.scope frame.flat, e, item) ∈ cache.entries ∧ (d.expr == e) = true) := by
  obtain ⟨made, hready, hfits⟩ := SelectionCache.exists_ready h.fits d.node
  have hmade := h.of_ready hready hfits
  have hentries : made.entries = frame.cache.entries :=
    (SelectionCache.ready_eq_ok_iff.mp hready).entries_eq
  have hoff : Scope.of frame.flat d.node = .off ↔ (!frame.flat && d.node.isNone) = true :=
    Scope.of_eq_off_iff
  rw [Demand.scope]
  cases hfind : made.find? (Scope.of frame.flat d.node) d.expr with
  | some item =>
    have hscope : Scope.of frame.flat d.node ≠ .off := by
      intro hscope
      simp [hscope, SelectionCache.find?, SelectionCache.table?] at hfind
    refine ⟨item, frame.part, made, added, select_of_find hready hfind, ?_,
      hentries ▸ List.Subset.refl _, fun _ ↦ SelectionCache.exists_entry_of_find? hfind⟩
    rw [if_neg (mt hoff.mpr hscope), Nat.add_zero]
    exact hmade
  | none =>
    let item := d.selectionAt (spec.extend added).count
    have hselect := select_of_not_find d.type hready hfind h.part_eq
    rw [QuerySpec.extend_extend] at hselect
    by_cases hscope : Scope.of frame.flat d.node = .off
    · rw [hscope, SelectionCache.put_off] at hselect
      refine ⟨item, _, _, added ++ [item], hselect, ?_, hentries ▸ List.Subset.refl _,
        absurd hscope⟩
      rw [if_pos (hoff.mp hscope)]
      exact hmade.extend item
    · have htable := SelectionCache.isSome_table?_of_ready hready hscope
      have hperm := SelectionCache.entries_put_perm htable hfind item
      refine ⟨item, _, _, added ++ [item], hselect, ?_, ?_, fun _ ↦ ⟨d.expr, ?_, BEq.rfl⟩⟩
      · rw [if_neg (mt hoff.mpr hscope), Nat.add_zero]
        exact hmade.extend_remember htable hfind
      · exact fun entry hmem ↦ hperm.mem_iff.mpr (List.mem_cons_of_mem _ (hentries ▸ hmem))
      · exact hperm.mem_iff.mpr List.mem_cons_self

theorem Coherent.answerAll (h : frame.Coherent spec added loose) (ds : List Demand) :
    ∃ items part cache longer,
      Frame.answerAll ds frame = .ok items { frame with part := part, cache := cache } ∧
      { frame with part := part, cache := cache }.Coherent spec longer
        (loose + ds.countP fun d : Demand ↦ !frame.flat && d.node.isNone) ∧
      frame.cache.entries ⊆ cache.entries ∧
      List.Forall₂ (fun d item ↦ d.scope frame.flat ≠ .off →
        ∃ e, (d.scope frame.flat, e, item) ∈ cache.entries ∧ (d.expr == e) = true) ds items := by
  induction ds generalizing frame added loose with
  | nil => exact ⟨[], frame.part, frame.cache, added, rfl, h, List.Subset.refl _, .nil⟩
  | cons d rest ih =>
    obtain ⟨item, part, cache, longer, hanswer, hfirst, hkept, hentry⟩ := h.answer d
    obtain ⟨items, part', cache', longest, hanswers, hrest, hkept', hentries⟩ := ih hfirst
    refine ⟨item :: items, part', cache', longest, ?_, ?_, fun _ hmem ↦ hkept' (hkept hmem),
      .cons (fun hscope ↦ ?_) hentries⟩
    · simp only [Frame.answerAll, List.mapM_cons, bind, EStateM.bind, hanswer] at hanswers ⊢
      rw [hanswers]
      rfl
    · rw [List.countP_cons, Nat.add_comm (rest.countP _), ← Nat.add_assoc]
      exact hrest
    · obtain ⟨e, hmem, hsame⟩ := hentry hscope
      exact ⟨e, hkept' hmem, hsame⟩

/-- After any requests to a frame that was made over a query specification, all of which are
answered, its tables and its select list agree. The tables have the shape that the sharing of the
block asks for. Each entry selects its expression and is in the list at its position, after the
initial selections; no two entries are for equal expressions in one scope, and no two are at one
position. The list has grown by the entries and by one selection for each request that came with
neither sharing throughout nor a fetch tree. The other requests have entries: each was answered with
what its scope holds for its expression. -/
theorem answerAll_coherent (spec : QuerySpec) (flat : Bool) (ds : List Demand) :
    ∃ items frame added,
      answerAll ds (start (.spec spec) flat) = .ok items frame ∧ frame.flat = flat ∧
      frame.Coherent spec added (ds.countP fun d ↦ !flat && d.node.isNone) ∧
      List.Forall₂ (fun d item ↦ d.scope flat ≠ .off →
        ∃ e, (d.scope flat, e, item) ∈ frame.cache.entries ∧ (d.expr == e) = true) ds items := by
  obtain ⟨items, part, cache, added, hanswers, hcoherent, -, hentries⟩ :=
    (coherent_start spec flat).answerAll ds
  rw [Nat.zero_add] at hcoherent
  exact ⟨items, _, added, hanswers, rfl, hcoherent, hentries⟩

/-- A request without scope puts a selection in the list that is in no table, also for an expression
that a table has. -/
example :
    let person := Path.root "Person" none
    let id : Expr := .column ⟨"p1_0", "id", false, .int⟩
    let asked : List Demand :=
      [⟨id, .int, some (.root person)⟩, ⟨id, .int, none⟩, ⟨id, .int, some (.root person)⟩]
    ∃ frame, answerAll asked (start (.spec (.ofTables [])) false) =
        .ok [⟨0, 1, id, .int⟩, ⟨1, 2, id, .int⟩, ⟨0, 1, id, .int⟩] frame ∧
      frame.cache.entries = [(.fetchRoot person, id, ⟨0, 1, id, .int⟩)] ∧
      frame.part = .spec ⟨false, [⟨0, 1, id, .int⟩, ⟨1, 2, id, .int⟩], []⟩ :=
  ⟨_, rfl, rfl, rfl⟩

end Frame

end ObjectSelect
