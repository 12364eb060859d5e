import ObjectSelect.Frame
import ObjectSelect.Proofs.Ledger
import ObjectSelect.Proofs.SelectionCache

/-!
# The resolver without tables

A frame answers requests for selections from tables that it makes when they are first needed: one
table for the whole block, or one for each fetch tree. `Frame.Records` ties a frame to a `Ledger`,
which has no tables: the cache finds for every demand what the ledger holds for it, and the select
list is the initial one followed by the selections of the ledger. `Frame.Records.answer` shows that
one request keeps the tie and gives what the ledger answers, and `Frame.Records.answerAll` follows a
sequence of requests.

The outcome, at the end, is the answer to a request after any requests before it, in terms of these
requests.
-/

set_option autoImplicit false
set_option relaxedAutoImplicit false

namespace ObjectSelect

/-- A cache that fits the sharing of the ledger's block and finds for every demand what the ledger
holds for it. -/
structure SelectionCache.Remembers (cache : SelectionCache) (ledger : Ledger) : Prop where
  fits : cache.Fits ledger.flat
  find?_eq : ∀ d : Demand, cache.find? (d.scope ledger.flat) d.expr = ledger.held? d

namespace SelectionCache

theorem remembers_empty (flat : Bool) (start : Nat) : unused.Remembers (.empty flat start) where
  fits := trivial
  find?_eq d := by
    rw [Ledger.held?_empty]
    cases d.scope _ <;> rfl

/-- Making the table of a scope keeps what a cache remembers. -/
theorem Remembers.of_ready {cache after : SelectionCache} {ledger : Ledger} {scope : Scope}
    (hcache : cache.Remembers ledger) (hready : cache.ready scope = .ok after)
    (hfits : after.Fits ledger.flat) : after.Remembers ledger :=
  ⟨hfits, fun d ↦ (find?_of_ready hready _ _).trans (hcache.find?_eq d)⟩

/-- A cache with the answer to a new demand remembers that demand too. -/
theorem Remembers.put {cache after : SelectionCache} {ledger : Ledger} {d : Demand}
    (hafter : after.Remembers ledger) (hready : cache.ready (d.scope ledger.flat) = .ok after)
    (hnew : ledger.held? d = none) :
    (after.put (d.scope ledger.flat) d.expr (ledger.answer d)).Remembers (ledger.note d) where
  fits := by
    rw [Ledger.note_flat]
    exact fits_put hafter.fits _ _ _
  find?_eq later := by
    rw [Ledger.note_flat, Ledger.held?_note]
    by_cases hoff : d.scope ledger.flat = .off
    · have hrepeats : later.repeats ledger.flat d = false := by
        rw [Bool.eq_false_iff]
        intro h
        obtain ⟨hlater, hscope, -⟩ := Demand.repeats_iff.mp h
        exact hlater (hscope ▸ hoff)
      simp [hoff, hrepeats, hafter.find?_eq]
    · rw [find?_put hready hoff, hafter.find?_eq]
      by_cases hrepeats : later.repeats ledger.flat d = true
      · obtain ⟨-, hscope, hexpr⟩ := Demand.repeats_iff.mp hrepeats
        rw [if_pos ⟨hscope.symm, BEq.symm hexpr⟩, Ledger.held?_of_repeats hrepeats, hnew]
        simp [hrepeats]
      · rw [if_neg]
        · simp [hrepeats]
        · rintro ⟨hscope, hexpr⟩
          exact hrepeats (Demand.repeats_iff.mpr ⟨hscope ▸ hoff, hscope.symm, BEq.symm hexpr⟩)

end SelectionCache

namespace QuerySpec

/-- The query specification with selections added at the end of its list. -/
def extend (spec : QuerySpec) (items : List Selection) : QuerySpec :=
  { spec with selections := spec.selections ++ items }

@[simp]
theorem extend_nil (spec : QuerySpec) : spec.extend [] = spec := by
  cases spec
  simp [extend]

@[simp]
theorem extend_extend (spec : QuerySpec) (items more : List Selection) :
    (spec.extend items).extend more = spec.extend (items ++ more) := by
  simp [extend]

@[simp]
theorem count_extend (spec : QuerySpec) (items : List Selection) :
    (spec.extend items).count = spec.count + items.length := by
  simp [extend, count]

end QuerySpec

namespace Frame

/-- A frame that has put the selections of a ledger after those of a query specification, and
remembers them. -/
structure Records (frame : Frame) (spec : QuerySpec) (ledger : Ledger) : Prop where
  flat_eq : ledger.flat = frame.flat
  start_eq : ledger.start = spec.count
  part_eq : frame.part = .spec (spec.extend ledger.selections)
  remembers : frame.cache.Remembers ledger

theorem records_start (spec : QuerySpec) (flat : Bool) :
    (start (.spec spec) flat).Records spec (.empty flat spec.count) where
  flat_eq := rfl
  start_eq := rfl
  part_eq := by simp [start]
  remembers := SelectionCache.remembers_empty flat spec.count

/-- Once the table of its scope is made, a request looks there first. -/
theorem select_of_ready {frame : Frame} {e : Expr} {type : ValueType} {node : Option FetchNode}
    {cache : SelectionCache} (hready : frame.cache.ready (Scope.of frame.flat node) = .ok cache) :
    select e type node frame =
      match cache.find? (Scope.of frame.flat node) e with
      | some held => .ok held { frame with cache := cache }
      | none =>
        match register e type { frame with cache := cache } with
        | .ok item after =>
          .ok item { after with cache := after.cache.put (Scope.of frame.flat node) e item }
        | .error violation after => .error violation after := by
  have hprepare : prepare (Scope.of frame.flat node) frame =
      .ok () { frame with cache := cache } := by
    simp only [prepare, hready]
  change EStateM.bind (prepare (Scope.of frame.flat node)) _ frame = _
  rw [EStateM.bind, hprepare]
  change (match cache.find? (Scope.of frame.flat node) e with
    | some held => pure held
    | none => _ : EStateM Violation Frame Selection) { frame with cache := cache } = _
  cases cache.find? (Scope.of frame.flat node) e with
  | some held => rfl
  | none =>
    change EStateM.bind (register e type) _ { frame with cache := cache } = _
    rw [EStateM.bind]
    cases register e type { frame with cache := cache } <;> rfl

/-- A request in a scope whose table cannot be made changes nothing. -/
theorem select_of_not_ready {frame : Frame} {e : Expr} {type : ValueType}
    {node : Option FetchNode} {violation : Violation}
    (hready : frame.cache.ready (Scope.of frame.flat node) = .error violation) :
    select e type node frame = .error violation frame := by
  change EStateM.bind (prepare (Scope.of frame.flat node)) _ frame = _
  simp only [EStateM.bind, prepare, hready]

/-- A request that finds a selection in the cache gives that one. -/
theorem select_of_find {frame : Frame} {e : Expr} {type : ValueType} {node : Option FetchNode}
    {cache : SelectionCache} {item : Selection}
    (hready : frame.cache.ready (Scope.of frame.flat node) = .ok cache)
    (hfind : cache.find? (Scope.of frame.flat node) e = some item) :
    select e type node frame = .ok item { frame with cache := cache } := by
  rw [select_of_ready hready, hfind]

/-- A request that finds none makes a selection at the end of the select list. -/
theorem select_of_not_find {frame : Frame} {e : Expr} (type : ValueType)
    {node : Option FetchNode} {cache : SelectionCache} {spec : QuerySpec}
    (hready : frame.cache.ready (Scope.of frame.flat node) = .ok cache)
    (hfind : cache.find? (Scope.of frame.flat node) e = none) (hpart : frame.part = .spec spec) :
    select e type node frame =
      .ok ⟨spec.count, spec.count + 1, e, type⟩ { frame with
        part := .spec (spec.extend [⟨spec.count, spec.count + 1, e, type⟩])
        cache :=
          cache.put (Scope.of frame.flat node) e ⟨spec.count, spec.count + 1, e, type⟩ } := by
  rw [select_of_ready hready, hfind]
  simp [register, hpart, QuerySpec.append_eq, QuerySpec.extend]

/-- Adding a selection without asking the cache always succeeds. What comes of it depends on the
part only, and nothing else of the frame changes. -/
theorem exists_appendUncached (e : Expr) (type : ValueType) (part : QueryPart) :
    ∃ position part', ∀ frame : Frame, frame.part = part →
      appendUncached e type frame = .ok position { frame with part := part' } := by
  cases part with
  | group operator parts =>
    refine ⟨none, .group operator parts, ?_⟩
    rintro ⟨part, flat, cache, columns, clause⟩ rfl
    rfl
  | spec spec =>
    refine ⟨some spec.count, .spec (spec.extend [⟨spec.count, spec.count + 1, e, type⟩]), ?_⟩
    rintro ⟨part, flat, cache, columns, clause⟩ rfl
    change EStateM.bind (register e type) _ _ = _
    simp [EStateM.bind, register, QuerySpec.append_eq, QuerySpec.extend, pure, EStateM.pure]

/-- The selection for a demand. -/
def answer (d : Demand) : EStateM Violation Frame Selection :=
  select d.expr d.type d.node

/-- The selections for demands made one after the other. -/
def answerAll (ds : List Demand) : EStateM Violation Frame (List Selection) :=
  ds.mapM answer

/-- A frame answers a demand as its ledger does. Nothing of the frame changes but its part and its
cache. -/
theorem Records.answer {frame : Frame} {spec : QuerySpec} {ledger : Ledger}
    (h : frame.Records spec ledger) (d : Demand) :
    ∃ part cache, Frame.answer d frame =
        .ok (ledger.answer d) { frame with part := part, cache := cache } ∧
      { frame with part := part, cache := cache }.Records spec (ledger.note d) := by
  have hscope : Scope.of frame.flat d.node = d.scope ledger.flat := by rw [Demand.scope, h.flat_eq]
  obtain ⟨cache, hready, hfits⟩ := SelectionCache.exists_ready h.remembers.fits d.node
  rw [h.flat_eq] at hready
  have hremembers := h.remembers.of_ready hready hfits
  have hfind : cache.find? (Scope.of frame.flat d.node) d.expr = ledger.held? d :=
    hscope ▸ hremembers.find?_eq d
  cases hheld : ledger.held? d with
  | some item =>
    rw [hheld] at hfind
    refine ⟨frame.part, cache, ?_, ?_⟩
    · rw [Frame.answer, select_of_find hready hfind, Ledger.answer_of_held hheld]
    · rw [Ledger.note_of_held hheld]
      exact ⟨h.flat_eq, h.start_eq, h.part_eq, hremembers⟩
  | none =>
    rw [hheld] at hfind
    have hitem : (⟨(spec.extend ledger.selections).count, (spec.extend ledger.selections).count + 1,
        d.expr, d.type⟩ : Selection) = ledger.answer d := by
      rw [Ledger.answer_of_not_held hheld, h.start_eq, QuerySpec.count_extend,
        Ledger.length_selections]
      rfl
    have hselect := select_of_not_find d.type hready hfind h.part_eq
    rw [hitem, QuerySpec.extend_extend, ← Ledger.selections_note_of_not_held hheld, hscope]
      at hselect
    refine ⟨_, _, hselect, ?_, ?_, rfl, ?_⟩
    · rw [Ledger.note_flat, h.flat_eq]
    · rw [Ledger.note_start, h.start_eq]
    · exact hremembers.put (hscope ▸ hready) hheld

theorem Records.answerAll {frame : Frame} {spec : QuerySpec} {ledger : Ledger}
    (h : frame.Records spec ledger) (ds : List Demand) :
    ∃ part cache, Frame.answerAll ds frame =
        .ok (ledger.answers ds) { frame with part := part, cache := cache } ∧
      { frame with part := part, cache := cache }.Records spec (ledger.noteAll ds) := by
  induction ds generalizing frame ledger with
  | nil => exact ⟨frame.part, frame.cache, rfl, h⟩
  | cons d rest ih =>
    obtain ⟨part, cache, hanswer, hfirst⟩ := h.answer d
    obtain ⟨part', cache', hanswers, hrest⟩ := ih hfirst
    refine ⟨part', cache', ?_, hrest⟩
    simp only [Frame.answerAll, List.mapM_cons, bind, EStateM.bind, hanswer,
      Ledger.answers] at hanswers ⊢
    rw [hanswers]
    rfl

/-- After any sequence of demands, the next one is answered as the sequence says, and no table
shows. If it repeats demands of its scope, it is given the answer to the first of these, with the
type of that one, and the part of the frame stays as it is. Otherwise it is given a new selection,
numbered after those of the initial select list and those made for demands that repeat none; this
one is put at the end of the list. So the list holds the initial selections and then the answers to
the demands that repeat none, in order, and the rest of the query specification never changes. -/
theorem answer_eq_of_history (spec : QuerySpec) (flat : Bool) (ds : List Demand) (d : Demand) :
    ∃ items frame item after,
      answerAll ds (start (.spec spec) flat) = .ok items frame ∧
      items.length = ds.length ∧
      frame.part = .spec (spec.extend ((Ledger.newIndices flat ds).filterMap (items[·]?))) ∧
      answer d frame = .ok item after ∧
      match ds.findIdx? (d.repeats flat) with
      | some j => items[j]? = some item ∧ after.part = frame.part
      | none =>
        item = ⟨spec.count + (Ledger.newIndices flat ds).length,
          spec.count + (Ledger.newIndices flat ds).length + 1, d.expr, d.type⟩ ∧
        after.part =
          .spec (spec.extend ((Ledger.newIndices flat ds).filterMap (items[·]?) ++ [item])) := by
  obtain ⟨part, cache, hanswers, hframe⟩ := (records_start spec flat).answerAll ds
  obtain ⟨part', cache', hanswer, hafter⟩ := hframe.answer d
  have hitems := Ledger.selections_noteAll_empty flat spec.count ds
  have hheld := Ledger.held?_noteAll_empty flat spec.count ds d
  refine ⟨_, _, _, _, hanswers, by simp, ?_, hanswer, ?_⟩
  · rw [hframe.part_eq, hitems]
  · cases hidx : ds.findIdx? (d.repeats flat) with
    | some j =>
      obtain ⟨hj, -⟩ := List.findIdx?_eq_some_iff_getElem.mp hidx
      rw [hidx, Option.bind_some, List.getElem?_eq_getElem (by simpa using hj)] at hheld
      refine ⟨?_, ?_⟩
      · rw [Ledger.answer_of_held hheld, List.getElem?_eq_getElem]
      · rw [hafter.part_eq, Ledger.note_of_held hheld, hframe.part_eq]
    | none =>
      rw [hidx, Option.bind_none] at hheld
      refine ⟨?_, ?_⟩
      · rw [Ledger.answer_of_not_held hheld, Ledger.length_firsts_noteAll_empty,
          Ledger.noteAll_start]
        rfl
      · rw [hafter.part_eq, Ledger.selections_note_of_not_held hheld, hitems]

/-- The requests for the identifier of a person, by the person, by the address fetched with the
person, by another person and by a scalar. -/
def identifierRequests : List Demand :=
  let id : Expr := .column ⟨"p", "id", false, .int⟩
  let person : FetchNode := .root (.root "Person" (some "p"))
  let other : FetchNode := .root (.root "Person" (some "q"))
  [⟨id, .int, some person⟩, ⟨id, .string, some (person.fetch "address")⟩, ⟨id, .int, some other⟩,
    ⟨id, .int, none⟩]

/-- In a list that selects a name already, the identifier is selected for the person, once more for
the other person and once more for the scalar. Whatever is fetched with the person is given the
selection of the person, at any depth, with the type that was asked for first. -/
theorem answer_within_fetch_tree :
    let name : Selection := ⟨0, 1, .column ⟨"p", "name", false, .string⟩, .string⟩
    let id : Expr := .column ⟨"p", "id", false, .int⟩
    let city : FetchNode := .fetch (.fetch (.root (.root "Person" (some "p"))) "address") "city"
    ∃ frame after,
      answerAll identifierRequests (start (.spec ⟨false, [name], []⟩) false) =
        .ok [⟨1, 2, id, .int⟩, ⟨1, 2, id, .int⟩, ⟨2, 3, id, .int⟩, ⟨3, 4, id, .int⟩] frame ∧
      frame.part = .spec
        ⟨false, [name, ⟨1, 2, id, .int⟩, ⟨2, 3, id, .int⟩, ⟨3, 4, id, .int⟩], []⟩ ∧
      answer ⟨id, .float, some city⟩ frame = .ok ⟨1, 2, id, .int⟩ after ∧
      after.part = frame.part := by
  intro name id city
  obtain ⟨items, frame, item, after, hanswers, -, hpart, hanswer, hagain, hkept⟩ :=
    answer_eq_of_history ⟨false, [name], []⟩ false identifierRequests ⟨id, .float, some city⟩
  obtain ⟨rfl, rfl⟩ := EStateM.Result.ok.inj hanswers
  obtain rfl := Option.some.inj hagain
  exact ⟨_, after, rfl, hpart, hanswer, hkept⟩

end Frame

end ObjectSelect
