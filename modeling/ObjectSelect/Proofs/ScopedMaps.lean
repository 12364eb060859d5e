import ObjectSelect.Proofs.Growth

/-!
# Selection caches from their history

A cache is used in visits. Each asks for the table of a scope and, if there is one, looks selections
up and remembers others. What a visit finds is determined by the visits before it, without the
tables: by the shape that the first of them asked for (`History.shape?`) and by what those of that
shape remembered in each scope (`History.latest?`). Visits that ask for no table, or for one of the
other shape, are left out (`History.granted`); the latter are refused, and neither leaves anything.

`Recalls` states this of one cache. It survives the request for a table and each use of it
(`Recalls.ready`, `Recalls.use`), hence every visit (`Recalls.visit`).
-/

set_option autoImplicit false
set_option relaxedAutoImplicit false

namespace ObjectSelect

/-- Whether a scope asks for the table of its block (`true`) or for the one of a fetch root
(`false`). Where nothing is shared it asks for none. -/
def Scope.shares? : Scope → Option Bool
  | flat => some true
  | fetchRoot _ => some false
  | off => none

/-- The fetch root that a scope is named by. -/
def Scope.root? : Scope → Option Path
  | fetchRoot root => some root
  | flat | off => none

theorem Scope.shares?_eq_none_iff {scope : Scope} : scope.shares? = none ↔ scope = .off := by
  cases scope <;> simp [shares?]

namespace SelectionCache

/-! ### The shape of a cache -/

/-- Whether there is a table for the block (`true`) or one for each fetch root (`false`), once there
are tables. -/
def shape? : SelectionCache → Option Bool
  | unused => none
  | flat _ => some true
  | perRoot _ => some false

/-- The fetch roots with a table, in the order in which their tables were made. -/
def roots : SelectionCache → List Path
  | perRoot tables => tables.map Prod.fst
  | flat _ | unused => []

/-- The violation of asking for a table of one shape where there are tables of the other. -/
def clash (shares : Bool) : Violation :=
  if shares then .flatOnScoped else .scopedOnFlat

theorem isInitialized_eq (cache : SelectionCache) : cache.isInitialized = cache.shape?.isSome := by
  cases cache <;> rfl

theorem rootCount_eq (cache : SelectionCache) : cache.rootCount = cache.roots.length := by
  cases cache with
  | unused => rfl
  | flat table => rfl
  | perRoot tables => simp [rootCount, roots]

section

variable {scope : Scope} {shares : Bool} {cache : SelectionCache}

theorem ready_of_clash (hscope : scope.shares? = some shares)
    (hshape : cache.shape? = some (!shares)) : cache.ready scope = .error (clash shares) := by
  cases scope with
  | off => cases hscope
  | flat =>
    cases hscope
    cases cache with
    | perRoot tables => rfl
    | unused | flat table => cases hshape
  | fetchRoot root =>
    cases hscope
    cases cache with
    | flat table => rfl
    | unused | perRoot tables => cases hshape

/-- A cache without tables of the other shape has or makes the table of a scope. -/
theorem exists_ready_of_shape (hscope : scope.shares? = some shares)
    (hshape : cache.shape? ≠ some (!shares)) :
    ∃ made, cache.ready scope = .ok made ∧ (made.table? scope).isSome = true ∧
      made.shape? = some shares ∧
      made.roots = cache.roots ++ scope.root?.toList.removeAll cache.roots := by
  cases scope with
  | off => cases hscope
  | flat =>
    cases hscope
    cases cache with
    | unused => exact ⟨_, rfl, rfl, rfl, rfl⟩
    | flat table => exact ⟨_, rfl, rfl, rfl, rfl⟩
    | perRoot tables => exact absurd rfl hshape
  | fetchRoot root =>
    cases hscope
    cases cache with
    | unused => exact ⟨_, rfl, by simp [table?], rfl, by simp [roots, Scope.root?, List.removeAll]⟩
    | flat table => exact absurd rfl hshape
    | perRoot tables =>
      by_cases hroot : (tables.lookup root).isSome = true
      · refine ⟨_, if_pos hroot, hroot, rfl, ?_⟩
        simp [roots, Scope.root?, List.removeAll, Assoc.mem_keys_iff_lookup.mpr hroot]
      · have hnew : tables.lookup root = none := Option.not_isSome_iff_eq_none.mp hroot
        refine ⟨_, if_neg hroot, by simp [table?, List.lookup_append, hnew], rfl, ?_⟩
        simp [roots, Scope.root?, List.removeAll, mt Assoc.mem_keys_iff_lookup.mp hroot]

@[simp]
theorem shape?_put (cache : SelectionCache) (scope : Scope) (e : Expr) (item : Selection) :
    (cache.put scope e item).shape? = cache.shape? := by
  cases cache <;> cases scope <;> rfl

/-- Remembering something makes no table where there is one. -/
theorem roots_put (htable : (cache.table? scope).isSome = true) (e : Expr) (item : Selection) :
    (cache.put scope e item).roots = cache.roots := by
  cases cache with
  | unused => rfl
  | flat table => cases scope <;> rfl
  | perRoot tables =>
    cases scope with
    | fetchRoot root =>
      have hroot : root ∈ tables.map Prod.fst := Assoc.mem_keys_iff_lookup.mpr htable
      simp only [put, roots, Assoc.keys_put, hroot, if_true]
    | flat | off => rfl

theorem isSome_table?_put (htable : (cache.table? scope).isSome = true) (e : Expr)
    (item : Selection) : ((cache.put scope e item).table? scope).isSome = true := by
  cases cache with
  | unused => exact htable
  | flat table =>
    cases scope with
    | flat => rfl
    | fetchRoot root | off => exact htable
  | perRoot tables =>
    cases scope with
    | fetchRoot root => simp [put, table?, Assoc.lookup_put]
    | flat | off => exact htable

end

/-! ### Nothing is removed -/

/-- Every table is still there, with all expressions that something is remembered for. -/
def Retains (cache after : SelectionCache) : Prop :=
  ∀ scope table, cache.table? scope = some table →
    ∃ later, after.table? scope = some later ∧ table.map Prod.fst <+: later.map Prod.fst

theorem Retains.refl (cache : SelectionCache) : cache.Retains cache :=
  fun _ table htable ↦ ⟨table, htable, List.prefix_rfl⟩

theorem Retains.trans {first middle last : SelectionCache} (h : first.Retains middle)
    (h' : middle.Retains last) : first.Retains last := by
  intro scope table htable
  obtain ⟨later, hlater, hprefix⟩ := h scope table htable
  obtain ⟨latest, hlatest, hprefix'⟩ := h' scope later hlater
  exact ⟨latest, hlatest, hprefix.trans hprefix'⟩

theorem Grows.retains {cache after : SelectionCache} (h : cache.Grows after) :
    cache.Retains after := by
  intro scope table htable
  cases h with
  | unused => cases scope <;> cases htable
  | @flat held longer hprefix =>
    cases scope with
    | flat =>
      cases htable
      exact ⟨longer, rfl, hprefix.map Prod.fst⟩
    | fetchRoot root | off => cases htable
  | perRoot h =>
    cases scope with
    | fetchRoot root =>
      obtain ⟨longer, hlonger, hprefix⟩ := h root table htable
      exact ⟨longer, hlonger, hprefix.map Prod.fst⟩
    | flat | off => cases htable

theorem retains_put (cache : SelectionCache) (scope : Scope) (e : Expr) (item : Selection) :
    cache.Retains (cache.put scope e item) := by
  intro asked table htable
  cases cache with
  | unused => cases asked <;> cases htable
  | flat held =>
    cases asked with
    | fetchRoot root | off => cases htable
    | flat =>
      cases htable
      cases scope with
      | flat => exact ⟨_, rfl, Assoc.keys_prefix_put e item table⟩
      | fetchRoot root | off => exact ⟨table, rfl, List.prefix_rfl⟩
  | perRoot tables =>
    cases asked with
    | flat | off => cases htable
    | fetchRoot path =>
      have hlookup : tables.lookup path = some table := htable
      cases scope with
      | flat | off => exact ⟨table, hlookup, List.prefix_rfl⟩
      | fetchRoot root =>
        simp only [put, table?, Assoc.lookup_put]
        by_cases hroot : path = root
        · subst hroot
          refine ⟨Assoc.put e item table, by simp [hlookup], ?_⟩
          exact Assoc.keys_prefix_put e item table
        · exact ⟨table, by simp [hroot, hlookup], List.prefix_rfl⟩

/-! ### Visits -/

/-- A use of the table of a scope. -/
inductive Use where
  | find (e : Expr)
  | put (e : Expr) (item : Selection)

namespace Use

/-- The expression that a use is about. -/
def expr : Use → Expr
  | find e | put e _ => e

/-- What a use leaves in the table. -/
def entry? : Use → Option (Expr × Selection)
  | find _ => none
  | put e item => some (e, item)

/-- Makes a use of the table of a scope. The answer is the selection that is held for the
expression; `put` then holds another one. -/
def run (scope : Scope) : Use → SelectionCache → Option Selection × SelectionCache
  | find e, cache => (cache.find? scope e, cache)
  | put e item, cache => (cache.find? scope e, cache.put scope e item)

/-- Makes uses one after the other. -/
def runAll (scope : Scope) : List Use → SelectionCache → List (Option Selection) × SelectionCache
  | [], cache => ([], cache)
  | use :: rest, cache =>
    let (answer, after) := use.run scope cache
    let (answers, last) := runAll scope rest after
    (answer :: answers, last)

end Use

/-- A request for the table of a scope, and the uses to make of it. -/
structure Visit where
  scope : Scope
  uses : List Use

namespace Visit

/-- Asks for the table and uses it. A visit that gets no table has no answers. -/
def run (visit : Visit) : EStateM Violation SelectionCache (Option (List (Option Selection))) :=
  fun cache ↦
    match cache.ready visit.scope with
    | .error violation => .error violation cache
    | .ok made =>
      match made.table? visit.scope with
      | none => .ok none made
      | some _ =>
        let (answers, after) := Use.runAll visit.scope visit.uses made
        .ok (some answers) after

/-- What the uses of a visit leave in the table, first one first. -/
def entries (visit : Visit) : SelectionTable :=
  visit.uses.filterMap Use.entry?

end Visit

/-- The visits to one cache, first one first. -/
abbrev History := List Visit

namespace History

/-- The cache after the visits. -/
def cache (past : History) : SelectionCache :=
  past.foldl (fun cache visit ↦ stateAfter (visit.run cache)) .unused

/-- The shape that the first visit asks for that asks for a table. -/
def shape? (past : History) : Option Bool :=
  past.findSome? fun visit ↦ visit.scope.shares?

/-- The visits that ask for a table of that shape. -/
def granted (past : History) : List Visit :=
  past.shape?.elim [] fun shares ↦ past.filter fun visit ↦ visit.scope.shares? == some shares

/-- The fetch roots that tables were asked for. -/
def roots (past : History) : List Path :=
  past.granted.filterMap fun visit ↦ visit.scope.root?

/-- What the visits left in the table of a scope, first one first. -/
def entries (past : History) (scope : Scope) : SelectionTable :=
  (past.granted.filter fun visit ↦ visit.scope == scope).flatMap Visit.entries

/-- The selection that was remembered last in a scope under an expression equal to `e`. -/
def latest? (past : History) (scope : Scope) (e : Expr) : Option Selection :=
  (past.entries scope).reverse.lookup e

/-- What the uses of a visit find: the latest of what there was before the visit and what its own
uses left by then. -/
def answers (past : History) (visit : Visit) : List (Option Selection) :=
  visit.uses.mapIdx fun i use ↦
    latest? (past ++ [⟨visit.scope, visit.uses.take i⟩]) visit.scope use.expr

theorem cache_append_singleton (past : History) (visit : Visit) :
    cache (past ++ [visit]) = stateAfter (visit.run past.cache) := by
  simp [cache]

end History

/-! ### Requests as visits -/

namespace Request

/-- What a request remembers, if its selection can be made. -/
def entry? (request : Request) : Option (Expr × Selection) :=
  request.put.bind fun (e, position, type) ↦
    (e.selectAtWord (position + 1) position type).toOption.map fun item ↦ (e, item)

/-- A request as a visit: it looks one expression up and then puts another. -/
def visit (request : Request) : Visit where
  scope := request.scope
  uses := (request.find.map Use.find).toList ++
    (request.entry?.map fun (e, item) ↦ Use.put e item).toList

/-- The parts of a reply that answer the uses of the visit. -/
def answers (request : Request) (reply : Reply) : List (Option Selection) :=
  (request.find.map fun _ ↦ reply.found).toList ++ (request.put.map fun _ ↦ reply.replaced).toList

end Request

/-- A request leaves what its visit leaves, and has the answers of the visit. -/
theorem answer_eq_run (request : Request) (cache : SelectionCache) :
    stateAfter (answer request cache) = stateAfter (request.visit.run cache) ∧
      ∀ reply after, answer request cache = .ok reply after →
        request.visit.run cache = .ok (reply.map request.answers) after := by
  obtain ⟨scope, find, put⟩ := request
  have hget (held : SelectionCache) : (EStateM.get held : EStateM.Result Violation _ _) =
    .ok held held := rfl
  have hset (next held : SelectionCache) : (EStateM.set next held : EStateM.Result Violation _ _) =
    .ok ⟨⟩ next := rfl
  simp only [answer, Visit.run, Request.visit, bind, EStateM.bind, get, getThe, MonadStateOf.get,
    hget]
  cases hready : cache.ready scope with
  | error violation => exact ⟨rfl, fun _ _ h ↦ by cases h⟩
  | ok made =>
    simp only [set, MonadStateOf.set, EStateM.bind, hset, hget]
    cases htable : made.table? scope with
    | none =>
      refine ⟨rfl, fun reply after h ↦ ?_⟩
      cases h
      rfl
    | some table =>
      simp only [Request.entry?]
      cases put with
      | none =>
        cases find with
        | none => exact ⟨rfl, fun _ _ h ↦ by cases h; rfl⟩
        | some sought => exact ⟨rfl, fun _ _ h ↦ by cases h; rfl⟩
      | some put =>
        obtain ⟨e, position, type⟩ := put
        simp only [Option.bind_some]
        cases hitem : e.selectAtWord (position + 1) position type with
        | error violation =>
          cases find with
          | none => exact ⟨rfl, fun _ _ h ↦ by cases h⟩
          | some sought => exact ⟨rfl, fun _ _ h ↦ by cases h⟩
        | ok item =>
          cases find with
          | none => exact ⟨rfl, fun _ _ h ↦ by cases h; rfl⟩
          | some sought => exact ⟨rfl, fun _ _ h ↦ by cases h; rfl⟩

/-- The cache after requests is the one after their visits. -/
theorem foldl_answer_eq (requests : List Request) :
    requests.foldl (fun cache request ↦ stateAfter (answer request cache)) unused =
      History.cache (requests.map Request.visit) := by
  unfold History.cache
  rw [List.foldl_map]
  simp only [answer_eq_run]

namespace History

/-! ### One more visit -/

section

variable {past : History} {visit : Visit} {shares : Bool}

/-- A visit that gets no table makes no difference. -/
theorem granted_append_of_off (hscope : visit.scope.shares? = none) :
    shape? (past ++ [visit]) = past.shape? ∧ granted (past ++ [visit]) = past.granted := by
  have hshape : shape? (past ++ [visit]) = past.shape? := by
    simp [shape?, List.findSome?_append, hscope]
  unfold granted
  rw [hshape]
  cases past.shape? with
  | none => exact ⟨rfl, rfl⟩
  | some shares => simp [hscope]

theorem granted_append_of_refused (hscope : visit.scope.shares? = some shares)
    (hpast : past.shape? = some (!shares)) :
    shape? (past ++ [visit]) = past.shape? ∧ granted (past ++ [visit]) = past.granted := by
  have hshape : shape? (past ++ [visit]) = past.shape? := by
    unfold shape? at hpast ⊢
    rw [List.findSome?_append, hpast, Option.some_or]
  unfold granted
  rw [hshape, hpast]
  simp [hscope]

/-- A visit of the shape that all have, or the first of all, is granted. -/
theorem granted_append_of_admitted (hscope : visit.scope.shares? = some shares)
    (hpast : past.shape? ≠ some (!shares)) :
    shape? (past ++ [visit]) = some shares ∧
      granted (past ++ [visit]) = past.granted ++ [visit] := by
  have hshape : shape? (past ++ [visit]) = past.shape?.or (some shares) := by
    simp [shape?, List.findSome?_append, hscope]
  unfold granted
  rw [hshape]
  cases hheld : past.shape? with
  | some held =>
    obtain rfl : held = shares := by
      rw [hheld] at hpast
      simpa using hpast
    simp [hscope]
  | none =>
    have hoff : ∀ earlier ∈ past, earlier.scope.shares? = none := by
      simpa [shape?, List.findSome?_eq_none_iff] using hheld
    have hnone : past.filter (fun earlier ↦ earlier.scope.shares? == some shares) = [] := by
      rw [List.filter_eq_nil_iff]
      intro earlier hmem
      simp [hoff earlier hmem]
    simp [hnone, hscope]

theorem roots_append_of_admitted (hscope : visit.scope.shares? = some shares)
    (hpast : past.shape? ≠ some (!shares)) :
    roots (past ++ [visit]) = past.roots ++ visit.scope.root?.toList := by
  obtain ⟨-, hgranted⟩ := granted_append_of_admitted hscope hpast
  unfold roots
  rw [hgranted, List.filterMap_append, List.filterMap_cons, List.filterMap_nil]
  cases visit.scope.root? <;> rfl

theorem entries_append_of_admitted (hscope : visit.scope.shares? = some shares)
    (hpast : past.shape? ≠ some (!shares)) (scope : Scope) :
    entries (past ++ [visit]) scope =
      past.entries scope ++ if visit.scope = scope then visit.entries else [] := by
  obtain ⟨-, hgranted⟩ := granted_append_of_admitted hscope hpast
  unfold entries
  rw [hgranted, List.filter_append, List.flatMap_append]
  by_cases hsame : visit.scope = scope
  · simp [hsame]
  · simp [hsame]

end

/-! ### A visit as its uses go on -/

section

variable {past : History} {scope : Scope} {shares : Bool} (hscope : scope.shares? = some shares)
  (hpast : past.shape? ≠ some (!shares))

include hscope hpast

/-- Before its first use a visit has left nothing. -/
theorem latest?_start (asked : Scope) (e : Expr) :
    latest? (past ++ [⟨scope, []⟩]) asked e = past.latest? asked e := by
  unfold latest?
  rw [entries_append_of_admitted hscope hpast]
  simp [Visit.entries]

theorem latest?_find (done : List Use) (sought : Expr) (asked : Scope) (e : Expr) :
    latest? (past ++ [⟨scope, done ++ [.find sought]⟩]) asked e =
      latest? (past ++ [⟨scope, done⟩]) asked e := by
  unfold latest?
  rw [entries_append_of_admitted hscope hpast, entries_append_of_admitted hscope hpast]
  simp [Visit.entries, Use.entry?, List.filterMap_cons]

/-- What is put is the latest from then on, in its scope and for expressions equal to its own. -/
theorem latest?_put (done : List Use) (held : Expr) (item : Selection) (asked : Scope) (e : Expr) :
    latest? (past ++ [⟨scope, done ++ [.put held item]⟩]) asked e =
      if asked = scope ∧ (e == held) = true then some item
      else latest? (past ++ [⟨scope, done⟩]) asked e := by
  unfold latest?
  rw [entries_append_of_admitted hscope hpast, entries_append_of_admitted hscope hpast]
  by_cases hasked : asked = scope
  · subst hasked
    simp only [Visit.entries, Use.entry?, List.filterMap_append, if_true, List.reverse_append,
      List.filterMap_cons, List.filterMap_nil, List.reverse_singleton, List.cons_append,
      List.lookup_cons, true_and]
    cases e == held <;> simp
  · have hother : ¬ scope = asked := fun h ↦ hasked h.symm
    simp [hasked, hother]

end

end History

/-! ### Caches and their history -/

/-- A cache is as its history says: its shape, the fetch roots that have a table, and what is found
in each scope. -/
structure Recalls (past : History) (cache : SelectionCache) : Prop where
  shape_eq : cache.shape? = past.shape?
  roots_eq : cache.roots = past.roots.eraseDups
  find?_eq : ∀ scope e, cache.find? scope e = past.latest? scope e

namespace Recalls

variable {past : History} {scope : Scope} {shares : Bool} {cache : SelectionCache}

theorem start : Recalls [] unused :=
  ⟨rfl, rfl, fun scope _ ↦ by cases scope <;> rfl⟩

/-- Visits that are not granted leave nothing to recall. -/
theorem of_granted_eq (h : Recalls past cache) {longer : History}
    (hsame : longer.shape? = past.shape? ∧ longer.granted = past.granted) :
    Recalls longer cache := by
  obtain ⟨hshape, hgranted⟩ := hsame
  refine ⟨h.shape_eq.trans hshape.symm, ?_, fun scope e ↦ ?_⟩
  · rw [h.roots_eq, History.roots, History.roots, hgranted]
  · rw [h.find?_eq, History.latest?, History.latest?, History.entries, History.entries, hgranted]

/-- What asking for a table does, if there is one for the scope. -/
theorem ready (h : Recalls past cache) (hscope : scope.shares? = some shares)
    (hpast : past.shape? ≠ some (!shares)) :
    ∃ made, cache.ready scope = .ok made ∧ (made.table? scope).isSome = true ∧
      Recalls (past ++ [⟨scope, []⟩]) made := by
  have hcache : cache.shape? ≠ some (!shares) := by rwa [h.shape_eq]
  obtain ⟨made, hready, htable, hshape, hroots⟩ := exists_ready_of_shape hscope hcache
  refine ⟨made, hready, htable, ?_, ?_, fun asked e ↦ ?_⟩
  · rw [hshape, (History.granted_append_of_admitted hscope hpast).1]
  · have hremove : scope.root?.toList.removeAll past.roots.eraseDups =
        (scope.root?.toList.removeAll past.roots).eraseDups := by
      cases scope.root? with
      | none => rfl
      | some root =>
        by_cases hmem : root ∈ past.roots
        · simp [List.removeAll, hmem]
        · simp [List.removeAll, hmem, List.eraseDups_cons]
    rw [hroots, h.roots_eq, hremove, History.roots_append_of_admitted hscope hpast,
      List.eraseDups_append]
  · rw [find?_of_ready hready, h.find?_eq, History.latest?_start hscope hpast]

/-- One use of the table of a scope, in a visit that has made the uses `done` of it. -/
theorem use (hscope : scope.shares? = some shares) (hpast : past.shape? ≠ some (!shares))
    {done : List Use} (h : Recalls (past ++ [⟨scope, done⟩]) cache)
    (htable : (cache.table? scope).isSome = true) (use : Use) :
    (use.run scope cache).1 = History.latest? (past ++ [⟨scope, done⟩]) scope use.expr ∧
      ((use.run scope cache).2.table? scope).isSome = true ∧
      Recalls (past ++ [⟨scope, done ++ [use]⟩]) (use.run scope cache).2 := by
  have hshape : History.shape? (past ++ [⟨scope, done⟩]) = some shares :=
    (History.granted_append_of_admitted hscope hpast).1
  have hroots : History.roots (past ++ [⟨scope, done⟩]) = past.roots ++ scope.root?.toList :=
    History.roots_append_of_admitted hscope hpast
  cases use with
  | find sought =>
    refine ⟨h.find?_eq scope sought, htable, ?_, ?_, fun asked e ↦ ?_⟩
    · show cache.shape? = _
      rw [h.shape_eq, hshape, (History.granted_append_of_admitted hscope hpast).1]
    · show cache.roots = _
      rw [h.roots_eq, hroots, History.roots_append_of_admitted hscope hpast]
    · show cache.find? asked e = _
      rw [h.find?_eq, History.latest?_find hscope hpast]
  | put held item =>
    have hready : cache.ready scope = .ok cache := ready_eq_ok_iff.mpr (.held htable)
    have hoff : scope ≠ .off := by
      rintro rfl
      cases hscope
    refine ⟨h.find?_eq scope held, isSome_table?_put htable held item, ?_, ?_, fun asked e ↦ ?_⟩
    · show (cache.put scope held item).shape? = _
      rw [shape?_put, h.shape_eq, hshape, (History.granted_append_of_admitted hscope hpast).1]
    · show (cache.put scope held item).roots = _
      rw [roots_put htable, h.roots_eq, hroots, History.roots_append_of_admitted hscope hpast]
    · show (cache.put scope held item).find? asked e = _
      rw [find?_put hready hoff, h.find?_eq, History.latest?_put hscope hpast]

/-- The uses of a visit that are left, after it has made the uses `done`. -/
theorem useAll (hscope : scope.shares? = some shares) (hpast : past.shape? ≠ some (!shares))
    {done : List Use} (h : Recalls (past ++ [⟨scope, done⟩]) cache)
    (htable : (cache.table? scope).isSome = true) (uses : List Use) :
    (Use.runAll scope uses cache).1 = uses.mapIdx (fun i use ↦
        History.latest? (past ++ [⟨scope, done ++ uses.take i⟩]) scope use.expr) ∧
      Recalls (past ++ [⟨scope, done ++ uses⟩]) (Use.runAll scope uses cache).2 := by
  induction uses generalizing done cache with
  | nil =>
    rw [List.append_nil]
    exact ⟨rfl, h⟩
  | cons use rest ih =>
    obtain ⟨hanswer, htable', hafter⟩ := h.use hscope hpast htable use
    obtain ⟨hanswers, hlast⟩ := ih hafter htable'
    constructor
    · show (use.run scope cache).1 :: (Use.runAll scope rest (use.run scope cache).2).1 = _
      rw [hanswer, hanswers, List.mapIdx_cons, List.take_zero, List.append_nil]
      simp only [List.take_succ_cons, List.append_assoc, List.singleton_append]
    · rw [List.append_assoc, List.singleton_append] at hlast
      exact hlast

/-- A visit that gets a table finds what its history says, and becomes part of the history. -/
theorem visit (h : Recalls past cache) {visit : Visit}
    (hscope : visit.scope.shares? = some shares) (hpast : past.shape? ≠ some (!shares)) :
    ∃ after, visit.run cache = .ok (some (past.answers visit)) after ∧
      Recalls (past ++ [visit]) after := by
  obtain ⟨scope, uses⟩ := visit
  obtain ⟨made, hready, htable, hmade⟩ := h.ready hscope hpast
  obtain ⟨hanswers, hafter⟩ := hmade.useAll hscope hpast htable uses
  obtain ⟨table, htable⟩ := Option.isSome_iff_exists.mp htable
  refine ⟨(Use.runAll scope uses made).2, ?_, hafter⟩
  simp only [Visit.run, hready, htable, hanswers]
  rfl

end Recalls

theorem Visit.run_of_off {visit : Visit} (hscope : visit.scope.shares? = none)
    (cache : SelectionCache) : visit.run cache = .ok none cache := by
  simp [run, Scope.shares?_eq_none_iff.mp hscope, SelectionCache.ready, table?]

theorem Visit.run_of_clash {visit : Visit} {shares : Bool} {cache : SelectionCache}
    (hscope : visit.scope.shares? = some shares) (hshape : cache.shape? = some (!shares)) :
    visit.run cache = .error (clash shares) cache := by
  simp [run, ready_of_clash hscope hshape]

namespace History

/-- Every cache is as its history says. -/
theorem recalls_cache (past : History) : Recalls past past.cache := by
  induction past using List.reverseRecOn with
  | nil => exact .start
  | append_singleton past visit ih =>
    rw [cache_append_singleton]
    cases hscope : visit.scope.shares? with
    | none =>
      rw [visit.run_of_off hscope]
      exact ih.of_granted_eq (granted_append_of_off hscope)
    | some shares =>
      by_cases hpast : shape? past = some (!shares)
      · rw [visit.run_of_clash hscope (ih.shape_eq.trans hpast)]
        exact ih.of_granted_eq (granted_append_of_refused hscope hpast)
      · obtain ⟨after, hrun, hafter⟩ := ih.visit hscope hpast
        rw [hrun]
        exact hafter

theorem isSome_shape?_iff (past : History) :
    past.shape?.isSome = true ↔ ∃ visit ∈ past, visit.scope ≠ .off := by
  unfold shape?
  rw [List.findSome?_isSome_iff]
  refine exists_congr fun visit ↦ and_congr_right fun _ ↦ ?_
  rw [Option.isSome_iff_ne_none, ne_eq, Scope.shares?_eq_none_iff]

theorem shape?_append (past later : History) :
    shape? (past ++ later) = past.shape?.or later.shape? :=
  List.findSome?_append

end History

/-! ### Nothing is removed by a visit -/

theorem retains_runAll (scope : Scope) (uses : List Use) (cache : SelectionCache) :
    cache.Retains (Use.runAll scope uses cache).2 := by
  induction uses generalizing cache with
  | nil => exact .refl cache
  | cons use rest ih =>
    have hfirst : cache.Retains (use.run scope cache).2 := by
      cases use with
      | find e => exact .refl cache
      | put e item => exact cache.retains_put scope e item
    exact hfirst.trans (ih _)

theorem retains_visit (visit : Visit) (cache : SelectionCache) :
    cache.Retains (stateAfter (visit.run cache)) := by
  unfold Visit.run
  cases hready : cache.ready visit.scope with
  | error violation => exact .refl cache
  | ok made =>
    have hmade : cache.Retains made := (grows_of_ready hready).retains
    cases htable : made.table? visit.scope with
    | none =>
      simp only [htable]
      exact hmade
    | some table =>
      simp only [htable]
      exact hmade.trans (retains_runAll visit.scope visit.uses made)

namespace History

theorem retains_append (past later : History) : past.cache.Retains (cache (past ++ later)) := by
  induction later using List.reverseRecOn with
  | nil =>
    rw [List.append_nil]
    exact .refl past.cache
  | append_singleton later visit ih =>
    rw [← List.append_assoc, cache_append_singleton]
    exact ih.trans (retains_visit visit _)

/-- A cache is a partial map for each scope, of one fixed shape. The first visit that asks for a
table fixes the shape; a visit that asks for a table of the other is refused, and one that asks for
none gets none, and neither changes the cache. Every other visit finds in its scope what was
remembered there last. Nothing is removed, and the cache counts the fetch roots that tables were
asked for. -/
theorem cache_is_scoped_map (past : History) :
    (past.cache.isInitialized = true ↔ ∃ visit ∈ past, visit.scope ≠ .off) ∧
    past.cache.rootCount = past.roots.eraseDups.length ∧
    (∀ scope e, past.cache.find? scope e = past.latest? scope e) ∧
    (∀ visit : Visit, visit.run past.cache =
      match visit.scope.shares? with
      | none => .ok none past.cache
      | some shares =>
        if past.shape? = some (!shares) then .error (clash shares) past.cache
        else .ok (some (past.answers visit)) (cache (past ++ [visit]))) ∧
    ∀ later : History, (cache (past ++ later)).shape? = past.shape?.or later.shape? ∧
      past.cache.Retains (cache (past ++ later)) := by
  have hpast := recalls_cache past
  refine ⟨?_, ?_, hpast.find?_eq, fun visit ↦ ?_, fun later ↦ ⟨?_, retains_append past later⟩⟩
  · rw [isInitialized_eq, hpast.shape_eq, isSome_shape?_iff]
  · rw [rootCount_eq, hpast.roots_eq]
  · cases hscope : visit.scope.shares? with
    | none => exact visit.run_of_off hscope past.cache
    | some shares =>
      by_cases hshape : past.shape? = some (!shares)
      · simp only [hshape, if_true]
        exact visit.run_of_clash hscope (hpast.shape_eq.trans hshape)
      · simp only [hshape, if_false]
        obtain ⟨after, hrun, -⟩ := hpast.visit hscope hshape
        rw [cache_append_singleton, hrun]
        rfl
  · rw [(recalls_cache (past ++ later)).shape_eq, shape?_append]

/-- Two uses of an entity are two scopes. A selection that is put again replaces the one before it,
in its own scope; and a visit to a table for the block comes too late. -/
example (first second : Selection) :
    let john := Scope.fetchRoot (.root "Person" (some "john"))
    let jane := Scope.fetchRoot (.root "Person" (some "jane"))
    let past : History := [⟨john, [.put (.parameter 1) first, .put (.parameter 1) second]⟩]
    past.answers ⟨john, [.find (.parameter 1)]⟩ = [some second] ∧
      past.answers ⟨jane, [.find (.parameter 1), .put (.parameter 1) first]⟩ = [none, none] ∧
      Visit.run ⟨.flat, []⟩ past.cache = .error .flatOnScoped past.cache :=
  ⟨rfl, rfl, rfl⟩

end History

end SelectionCache

end ObjectSelect
