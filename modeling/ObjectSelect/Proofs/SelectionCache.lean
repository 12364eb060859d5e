import ObjectSelect.Proofs.Assoc
import ObjectSelect.Proofs.Equality
import ObjectSelect.SelectionCache

/-!
# Selection caches as partial maps

A cache that fits the sharing of its block answers every request of that block, and reading it after
a write gives what was written (`SelectionCache.find?_put`). Tables are made on demand: what that
does is that there may be one more table, without entries (`SelectionCache.ready_eq_ok_iff`), so it
changes no answer (`SelectionCache.find?_of_ready`). What is found is always an entry
(`SelectionCache.exists_entry_of_find?`), and remembering a selection where none is found makes one
more (`SelectionCache.entries_put_perm`).
-/

set_option autoImplicit false
set_option relaxedAutoImplicit false

namespace ObjectSelect

namespace SelectionCache

/-- Whether a cache has no table yet or tables of the shape that the sharing of its block asks
for. -/
def Fits (shares : Bool) : SelectionCache → Prop
  | unused => True
  | flat _ => shares = true
  | perRoot _ => shares = false

/-! ### Tables without entries -/

/-- The entries of all tables, each with the scope of its table. -/
def entries : SelectionCache → List (Scope × Expr × Selection)
  | unused => []
  | flat table => table.map fun entry ↦ (.flat, entry)
  | perRoot tables => tables.flatMap fun (root, table) ↦
    table.map fun entry ↦ (.fetchRoot root, entry)

/-- A cache in which nothing changed but that there may be one more table, for the scope and without
entries. -/
inductive Opens : Scope → SelectionCache → SelectionCache → Prop
  | off (cache : SelectionCache) : Opens .off cache cache
  | held {scope : Scope} {cache : SelectionCache} (htable : (cache.table? scope).isSome = true) :
    Opens scope cache cache
  | flat : Opens .flat unused (flat [])
  | first (root : Path) : Opens (.fetchRoot root) unused (perRoot [(root, [])])
  | another (root : Path) (tables : List (Path × SelectionTable))
    (hnew : tables.lookup root = none) :
    Opens (.fetchRoot root) (perRoot tables) (perRoot (tables ++ [(root, [])]))

/-- That is all that making the table of a scope does. -/
theorem ready_eq_ok_iff {scope : Scope} {cache after : SelectionCache} :
    cache.ready scope = .ok after ↔ Opens scope cache after := by
  constructor
  · intro hready
    cases scope with
    | off =>
      cases hready
      exact .off cache
    | flat =>
      cases cache with
      | unused =>
        cases hready
        exact .flat
      | flat table =>
        cases hready
        exact .held rfl
      | perRoot tables => cases hready
    | fetchRoot root =>
      cases cache with
      | unused =>
        cases hready
        exact .first root
      | flat table => cases hready
      | perRoot tables =>
        by_cases hroot : (tables.lookup root).isSome = true
        · simp only [ready, hroot, if_true, Except.ok.injEq] at hready
          subst hready
          exact .held hroot
        · simp only [ready, hroot, Bool.false_eq_true, if_false, Except.ok.injEq] at hready
          subst hready
          exact .another root tables (Option.not_isSome_iff_eq_none.mp hroot)
  · intro hopens
    cases hopens with
    | off => rfl
    | flat => rfl
    | first root => rfl
    | another root tables hnew => simp [ready, hnew]
    | held htable =>
      cases scope with
      | off => rfl
      | flat =>
        cases cache with
        | flat table => rfl
        | unused => cases htable
        | perRoot tables => cases htable
      | fetchRoot root =>
        cases cache with
        | perRoot tables => exact if_pos htable
        | unused => cases htable
        | flat table => cases htable

theorem Opens.entries_eq {scope : Scope} {cache after : SelectionCache}
    (h : Opens scope cache after) : after.entries = cache.entries := by
  cases h with
  | off => rfl
  | held htable => rfl
  | flat => rfl
  | first root => rfl
  | another root tables hnew => simp [entries]

/-! ### Reading and writing -/

/-- The tables of a block that shares within fetch trees, once there is one for `root`. -/
private theorem lookup_added (root other : Path) (tables : List (Path × SelectionTable))
    (e : Expr) :
    ((tables ++ [(root, [])]).lookup other).bind (·.lookup e) =
      (tables.lookup other).bind (·.lookup e) := by
  rw [List.lookup_append]
  cases h : tables.lookup other with
  | some table => rfl
  | none => cases hroot : other == root <;> simp [List.lookup_cons, hroot]

/-- Making the table of a scope changes no answer. -/
theorem find?_of_ready {scope : Scope} {cache after : SelectionCache}
    (hready : cache.ready scope = .ok after) (other : Scope) (e : Expr) :
    after.find? other e = cache.find? other e := by
  cases ready_eq_ok_iff.mp hready with
  | off => rfl
  | held htable => rfl
  | flat => cases other <;> rfl
  | first root =>
    cases other with
    | fetchRoot path => exact lookup_added root path [] e
    | flat | off => rfl
  | another root tables hnew =>
    cases other with
    | fetchRoot path => exact lookup_added root path tables e
    | flat | off => rfl

theorem exists_flat_of_ready {cache after : SelectionCache}
    (hready : cache.ready .flat = .ok after) : ∃ table, after = flat table := by
  cases ready_eq_ok_iff.mp hready with
  | flat => exact ⟨[], rfl⟩
  | held htable =>
    cases cache with
    | flat table => exact ⟨table, rfl⟩
    | unused | perRoot tables => cases htable

theorem exists_perRoot_of_ready {cache after : SelectionCache} {root : Path}
    (hready : cache.ready (.fetchRoot root) = .ok after) : ∃ tables, after = perRoot tables := by
  cases ready_eq_ok_iff.mp hready with
  | first => exact ⟨_, rfl⟩
  | another => exact ⟨_, rfl⟩
  | held htable =>
    cases cache with
    | perRoot tables => exact ⟨tables, rfl⟩
    | unused | flat table => cases htable

/-- A selection remembered for an expression in a scope is found for it there, and nothing else
changes. -/
theorem find?_put {scope : Scope} {cache after : SelectionCache}
    (hready : cache.ready scope = .ok after) (hscope : scope ≠ .off) (e : Expr)
    (item : Selection) (other : Scope) (e' : Expr) :
    (after.put scope e item).find? other e' =
      if other = scope ∧ (e' == e) = true then some item else after.find? other e' := by
  cases scope with
  | off => exact absurd rfl hscope
  | flat =>
    obtain ⟨table, rfl⟩ := exists_flat_of_ready hready
    cases other with
    | flat => simpa [put, find?, table?] using Assoc.lookup_put e e' item table
    | fetchRoot path => simp [put, find?, table?]
    | off => simp [find?, table?]
  | fetchRoot root =>
    obtain ⟨tables, rfl⟩ := exists_perRoot_of_ready hready
    cases other with
    | flat => simp [put, find?, table?]
    | off => simp [find?, table?]
    | fetchRoot path =>
      simp only [put, find?, table?, Assoc.lookup_put, Scope.fetchRoot.injEq, beq_iff_eq]
      by_cases hpath : path = root
      · subst hpath
        simp only [if_true, true_and, Option.bind_some, Assoc.lookup_put]
        cases tables.lookup path <;> simp
      · simp [hpath]

/-- A cache that fits its block has or can make the table of every scope of the block. -/
theorem exists_ready {shares : Bool} {cache : SelectionCache} (hfits : cache.Fits shares)
    (node : Option FetchNode) :
    ∃ after, cache.ready (Scope.of shares node) = .ok after ∧ after.Fits shares := by
  cases cache with
  | unused =>
    cases shares with
    | true => exact ⟨_, rfl, rfl⟩
    | false =>
      cases node with
      | none => exact ⟨_, rfl, trivial⟩
      | some node => exact ⟨_, rfl, rfl⟩
  | flat table =>
    obtain rfl : shares = true := hfits
    exact ⟨_, rfl, rfl⟩
  | perRoot tables =>
    obtain rfl : shares = false := hfits
    cases node with
    | none => exact ⟨_, rfl, rfl⟩
    | some node =>
      simp only [Scope.of, Bool.false_eq_true, if_false, ready]
      split
      · exact ⟨_, rfl, rfl⟩
      · exact ⟨_, rfl, rfl⟩

theorem fits_put {shares : Bool} {cache : SelectionCache} (hfits : cache.Fits shares)
    (scope : Scope) (e : Expr) (item : Selection) : (cache.put scope e item).Fits shares := by
  cases cache with
  | unused => exact hfits
  | flat table => cases scope <;> exact hfits
  | perRoot tables => cases scope <;> exact hfits

@[simp]
theorem put_off (cache : SelectionCache) (e : Expr) (item : Selection) :
    cache.put .off e item = cache := by
  cases cache <;> rfl

/-! ### Entries and what is found -/

section

variable {scope : Scope} {cache : SelectionCache} {e e' : Expr}

theorem find?_congr (h : (e == e') = true) : cache.find? scope e = cache.find? scope e' := by
  unfold find?
  cases cache.table? scope with
  | none => rfl
  | some table => exact Assoc.lookup_congr h table

/-- What is found is an entry of its scope for an equal expression. -/
theorem exists_entry_of_find? {item : Selection} (h : cache.find? scope e = some item) :
    ∃ held, (scope, held, item) ∈ cache.entries ∧ (e == held) = true := by
  obtain ⟨table, htable, hlookup⟩ := Option.bind_eq_some_iff.mp h
  obtain ⟨held, hmem, hheld⟩ := Assoc.exists_mem_of_lookup hlookup
  refine ⟨held, ?_, hheld⟩
  cases scope with
  | off => cases cache <;> cases htable
  | flat =>
    cases cache with
    | unused | perRoot tables => cases htable
    | flat table' =>
      cases htable
      exact List.mem_map_of_mem hmem
  | fetchRoot root =>
    cases cache with
    | unused | flat table' => cases htable
    | perRoot tables =>
      have hroot : (root, table) ∈ tables := Assoc.mem_of_lookup htable
      exact List.mem_flatMap.mpr ⟨(root, table), hroot, List.mem_map_of_mem hmem⟩

/-- A selection remembered for an expression that has none in the scope is one more entry. -/
theorem entries_put_perm (htable : (cache.table? scope).isSome = true)
    (hnew : cache.find? scope e = none) (item : Selection) :
    (cache.put scope e item).entries.Perm ((scope, e, item) :: cache.entries) := by
  obtain ⟨table, htable⟩ := Option.isSome_iff_exists.mp htable
  have hlookup : table.lookup e = none := by simpa [find?, htable] using hnew
  have hput := Assoc.put_of_lookup_eq_none hlookup item
  cases scope with
  | off => cases cache <;> cases htable
  | flat =>
    cases cache with
    | unused | perRoot tables => cases htable
    | flat table' =>
      cases htable
      simp only [put, hput, entries, List.map_append, List.map_singleton]
      exact List.perm_append_singleton _ _
  | fetchRoot root =>
    cases cache with
    | unused | flat table' => cases htable
    | perRoot tables =>
      have htables : tables.lookup root = some table := htable
      simp only [put, htables, Option.getD_some, hput, entries]
      refine Assoc.flatMap_put_perm ?_ htables
      rw [List.map_append, List.map_singleton]
      exact List.perm_append_singleton _ _

/-- Once the table of a scope is made, it is there. -/
theorem isSome_table?_of_ready {made : SelectionCache} (hready : cache.ready scope = .ok made)
    (hscope : scope ≠ .off) : (made.table? scope).isSome = true := by
  cases ready_eq_ok_iff.mp hready with
  | off => exact absurd rfl hscope
  | held htable => exact htable
  | flat => rfl
  | first root => simp [table?]
  | another root tables hnew => simp [table?, List.lookup_append, hnew]

end

end SelectionCache

end ObjectSelect
