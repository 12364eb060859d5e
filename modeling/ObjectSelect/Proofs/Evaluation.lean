import ObjectSelect.Proofs.Demands
import ObjectSelect.Reader

/-!
# Evaluating a query directly

What a query means, without select lists, positions or caches: given the value of every expression,
a scalar is the value of its expression, an entity is an object of the values of its own columns and
of the objects fetched with it, and a nested query is the value of its block. Each value is checked
against the type that the query gives, and evaluation stops at the first one that is not of its
type.

Like the demands of a query, its values depend on a `Naming`. `Query.evaluate` takes every column
for itself. What a query asks for does not change if the naming is exchanged for one that agrees
with it on the columns of the query (`Naming.Agree`, `Query.demands_congr`).
`QueryItem.values_first_eq` says when taking the first column of each key makes no difference: when
no two columns that the query maps share a key but differ (`Query.Consistent`).
-/

set_option autoImplicit false
set_option relaxedAutoImplicit false

namespace ObjectSelect

/-- A value of the type, or the type if the value is not of it. -/
def ValueType.check (type : ValueType) (value : Value) : Except ValueType Value :=
  if type.accepts value then .ok value else .error type

namespace Value

/-- Inserts entries one after the other. -/
def insertAll (held entries : List (String × Value)) : List (String × Value) :=
  entries.foldl (fun held entry ↦ insertMember entry.1 entry.2 held) held

@[simp]
theorem insertAll_nil (held : List (String × Value)) : insertAll held [] = held := rfl

@[simp]
theorem insertAll_cons (held : List (String × Value)) (entry : String × Value)
    (rest : List (String × Value)) :
    insertAll held (entry :: rest) = insertAll (insertMember entry.1 entry.2 held) rest := rfl

theorem insertAll_append (held entries rest : List (String × Value)) :
    insertAll held (entries ++ rest) = insertAll (insertAll held entries) rest := by
  simp [insertAll]

theorem lookup_insertMember (name other : String) (value : Value) (held : List (String × Value)) :
    (insertMember name value held).lookup other =
      if other == name then some value else held.lookup other := by
  induction held with
  | nil =>
    rw [insertMember, List.lookup_cons, List.lookup_nil]
    cases other == name <;> rfl
  | cons entry rest ih =>
    obtain ⟨first, old⟩ := entry
    rw [insertMember]
    split
    · rename_i hname
      subst hname
      cases h : other == name <;> simp [List.lookup_cons, h]
    · rename_i hname
      split
      · cases h : other == name <;> simp [List.lookup_cons, h]
      · rw [List.lookup_cons, ih, List.lookup_cons]
        cases hfirst : other == first with
        | false => rfl
        | true =>
          have hother : (other == name) = false := by
            rw [beq_eq_false_iff_ne, eq_of_beq hfirst]
            exact Ne.symm hname
          simp [hother]

/-- Entries inserted from nothing leave under each name the last value that came for it. -/
theorem lookup_insertAll_nil (entries : List (String × Value)) (name : String) :
    (insertAll [] entries).lookup name = entries.reverse.lookup name := by
  induction entries using List.reverseRecOn with
  | nil => rfl
  | append_singleton rest entry ih =>
    rw [insertAll_append, insertAll_cons, insertAll_nil, lookup_insertMember, ih,
      List.reverse_append, List.reverse_singleton, List.singleton_append, List.lookup_cons]
    cases name == entry.1 <;> rfl

end Value

namespace Attribute

/-- The attributes that an entity shows: the last one of each name. -/
def shown (attributes : List Attribute) : List Attribute :=
  (attributes.map (·.name)).eraseDups.filterMap fun name ↦
    attributes.reverse.find? fun attr ↦ attr.name == name

/-- The member of an object for an attribute, if the columns have the values `w`. -/
def member (w : Column → Value) (correlation : String) (attr : Attribute) :
    Except ValueType (String × Value) := do
  let value ← attr.type.check (w (attr.column correlation))
  return (attr.name, value)

theorem mem_of_mem_shown {attributes : List Attribute} {attr : Attribute}
    (h : attr ∈ shown attributes) : attr ∈ attributes := by
  obtain ⟨name, -, hname⟩ := List.mem_filterMap.mp h
  exact List.mem_reverse.mp (List.mem_of_find?_eq_some hname)

end Attribute

/-- Mapping with functions that agree on the list gives the same, and stops at the same place. -/
theorem mapM_congr_of_mem {α β ε : Type} {f g : α → Except ε β} {items : List α}
    (h : ∀ a ∈ items, f a = g a) : items.mapM f = items.mapM g := by
  induction items with
  | nil => rfl
  | cons a rest ih =>
    rw [List.mapM_cons, List.mapM_cons, h a List.mem_cons_self,
      ih fun b hb ↦ h b (List.mem_cons_of_mem a hb)]

namespace EntityGraph

mutual

/-- The object of an entity, if the columns have the values `w`: its attributes and then the objects
fetched with it, which take the place of attributes of the same name. -/
def value (w : Column → Value) : EntityGraph → Except ValueType Value
  | ⟨_, _, table, attributes, fetches⟩ => do
    let own ← (Attribute.shown attributes).mapM (Attribute.member w table.correlation)
    let fetched ← fetchedValues w fetches
    return .object (Value.insertAll [] (own ++ fetched))
  termination_by structural graph => graph

/-- The objects of fetched entities under their names. -/
def fetchedValues (w : Column → Value) :
    List (String × EntityGraph) → Except ValueType (List (String × Value))
  | [] => return []
  | (name, graph) :: rest => do
    let value ← graph.value w
    let others ← fetchedValues w rest
    return (name, value) :: others
  termination_by structural fetches => fetches

end

mutual

/-- The object of an entity depends only on the values of the columns that the entity maps. -/
theorem value_congr {w w' : Column → Value} (node : FetchNode) : ∀ graph : EntityGraph,
    (∀ site ∈ graph.columnsAt node, w site.2 = w' site.2) → graph.value w = graph.value w'
  | ⟨_, _, table, attributes, fetches⟩ => by
    intro h
    simp only [columnsAt, List.mem_append] at h
    have hown : (Attribute.shown attributes).mapM (Attribute.member w table.correlation) =
        (Attribute.shown attributes).mapM (Attribute.member w' table.correlation) := by
      refine mapM_congr_of_mem fun attr hattr ↦ ?_
      have hmem := List.mem_map_of_mem (f := fun attr : Attribute ↦
        (node, attr.column table.correlation)) (Attribute.mem_of_mem_shown hattr)
      rw [Attribute.member, Attribute.member, h _ (.inl hmem)]
    rw [value, value, hown, fetchedValues_congr node fetches fun site hsite ↦ h site (.inr hsite)]
  termination_by structural graph => graph

theorem fetchedValues_congr {w w' : Column → Value} (node : FetchNode) :
    ∀ fetches : List (String × EntityGraph),
      (∀ site ∈ fetchedColumnsAt node fetches, w site.2 = w' site.2) →
      fetchedValues w fetches = fetchedValues w' fetches
  | [] => fun _ ↦ rfl
  | (name, graph) :: rest => by
    intro h
    simp only [fetchedColumnsAt, List.mem_append] at h
    rw [fetchedValues, fetchedValues,
      value_congr (node.fetch name) graph fun site hsite ↦ h site (.inl hsite),
      fetchedValues_congr node rest fun site hsite ↦ h site (.inr hsite)]
  termination_by structural fetches => fetches

end

end EntityGraph

namespace QueryItem

/-- The value of a selected thing after the columns in `seen`, if expressions have the values `v`.
-/
def value (naming : Naming) (v : Expr → Value) (seen : List Column) :
    QueryItem → Except ValueType Value
  | scalar e type _ => type.check (v e)
  | entity graph => graph.value fun c ↦ v (.column (naming (seen ++ graph.columns) c))
  | subquery query _ =>
    let block := query.block naming seen
    block.type.check (v (.subquery block))

/-- The values of selected things, one after the other. -/
def values (naming : Naming) (v : Expr → Value) :
    List Column → List QueryItem → Except ValueType (List Value)
  | _, [] => return []
  | seen, item :: rest => do
    let value ← item.value naming v seen
    let others ← values naming v (seen ++ item.columns) rest
    return value :: others

end QueryItem

/-- The values of all that a query selects, if expressions have the values `v`. Every column is
taken for itself, whatever was asked for before. -/
def Query.evaluate (v : Expr → Value) (query : Query) : Except ValueType (List Value) :=
  query.selections.mapM (QueryItem.value .own v [])

mutual

/-- The columns that a query maps anywhere: in its entities, in what they fetch, and in the same way
in its nested queries. -/
def Query.mappedColumns : Query → List Column
  | ⟨selections, _⟩ => QueryItem.mappedColumnsAll selections
  termination_by structural query => query

/-- The columns that a selected thing maps anywhere. -/
def QueryItem.mappedColumns : QueryItem → List Column
  | .scalar _ _ _ => []
  | .entity graph => graph.columns
  | .subquery query _ => query.mappedColumns
  termination_by structural item => item

/-- The columns that selected things map anywhere. -/
def QueryItem.mappedColumnsAll : List QueryItem → List Column
  | [] => []
  | item :: rest => item.mappedColumns ++ QueryItem.mappedColumnsAll rest
  termination_by structural items => items

end

/-- Columns of the same key that a query maps agree on whether they are formulas and on their type.
-/
def Query.Consistent (query : Query) : Prop :=
  ∀ c ∈ query.mappedColumns, ∀ other ∈ query.mappedColumns, c.key = other.key →
    c.isFormula = other.isFormula ∧ c.type = other.type

instance (query : Query) : Decidable query.Consistent :=
  inferInstanceAs (Decidable (∀ c ∈ query.mappedColumns, ∀ other ∈ query.mappedColumns,
    c.key = other.key → c.isFormula = other.isFormula ∧ c.type = other.type))

/-! ### Namings that agree -/

/-- Two namings, each after the columns that it has seen, take the same columns for those of `cols`,
and also after more of these. -/
def Naming.Agree (cols : List Column) (naming : Naming) (seen : List Column) (naming' : Naming)
    (seen' : List Column) : Prop :=
  ∀ more ⊆ cols, ∀ c ∈ more, naming (seen ++ more) c = naming' (seen' ++ more) c

section

variable {cols : List Column} {naming naming' : Naming}

/-- Namings that agree still do after more columns. -/
theorem Naming.Agree.append {seen seen' : List Column} (h : Agree cols naming seen naming' seen')
    {more : List Column} (hmore : more ⊆ cols) :
    Agree cols naming (seen ++ more) naming' (seen' ++ more) := by
  intro later hlater c hc
  rw [List.append_assoc, List.append_assoc]
  exact h _ (List.append_subset.mpr ⟨hmore, hlater⟩) c (List.mem_append_right more hc)

theorem QueryItem.columns_subset_mappedColumns (item : QueryItem) :
    item.columns ⊆ item.mappedColumns := by
  cases item with
  | entity graph => exact List.Subset.refl _
  | scalar | subquery => exact List.nil_subset _

mutual

/-- What a query asks for is the same under namings that agree on its columns. -/
theorem Query.demands_congr : ∀ (query : Query) {seen seen' : List Column},
    Naming.Agree cols naming seen naming' seen' → query.mappedColumns ⊆ cols →
    query.demands naming seen = query.demands naming' seen'
  | ⟨selections, _⟩, _, _ => fun h hquery ↦ QueryItem.demandsAll_congr selections h hquery
  termination_by structural query => query

theorem QueryItem.demands_congr : ∀ (item : QueryItem) {seen seen' : List Column},
    Naming.Agree cols naming seen naming' seen' → item.mappedColumns ⊆ cols →
    item.demands naming seen = item.demands naming' seen'
  | .scalar _ _ _, _, _ => fun _ _ ↦ rfl
  | .entity graph, seen, seen' => by
    intro h hitem
    change graph.columns ⊆ cols at hitem
    refine List.map_congr_left fun site hsite ↦ ?_
    rw [Column.demand, Column.demand, h _ hitem _ (List.mem_map_of_mem hsite)]
  | .subquery query _, seen, seen' => by
    intro h hitem
    rw [QueryItem.demands, QueryItem.demands, query.demands_congr h hitem]
  termination_by structural item => item

theorem QueryItem.demandsAll_congr : ∀ (items : List QueryItem) {seen seen' : List Column},
    Naming.Agree cols naming seen naming' seen' → QueryItem.mappedColumnsAll items ⊆ cols →
    QueryItem.demandsAll naming seen items = QueryItem.demandsAll naming' seen' items
  | [], _, _ => fun _ _ ↦ rfl
  | item :: rest, seen, seen' => by
    intro h hitems
    obtain ⟨hitem, hrest⟩ := List.append_subset.mp hitems
    have hcolumns := List.Subset.trans item.columns_subset_mappedColumns hitem
    rw [QueryItem.demandsAll, QueryItem.demandsAll, item.demands_congr h hitem,
      QueryItem.demandsAll_congr rest (h.append hcolumns) hrest]
  termination_by structural items => items

end

end

/-! ### Columns that differ by their keys -/

/-- Different columns of the list have different keys. -/
def Column.DifferByKey (cols : List Column) : Prop :=
  ∀ c ∈ cols, ∀ other ∈ cols, c.key = other.key → c = other

/-- The columns of a consistent query differ by their keys. -/
theorem Query.Consistent.differByKey {query : Query} (h : query.Consistent) :
    Column.DifferByKey query.mappedColumns := by
  intro c hc other hother hkey
  obtain ⟨hformula, htype⟩ := h c hc other hother hkey
  simp only [Column.key, ColumnKey.mk.injEq] at hkey
  cases c
  cases other
  simp_all

section

variable {cols : List Column}

theorem Naming.first_eq (hcols : Column.DifferByKey cols) {seen : List Column} {c : Column}
    (hseen : seen ⊆ cols) (hc : c ∈ cols) : first seen c = c := by
  rw [first]
  cases hfind : seen.find? fun earlier ↦ earlier.key == c.key with
  | none => rfl
  | some earlier =>
    have hkey : earlier.key = c.key := by simpa using List.find?_some hfind
    exact hcols _ (hseen (List.mem_of_find?_eq_some hfind)) _ hc hkey

/-- Where columns differ by their keys, the first column of a key is the column itself. -/
theorem Naming.agree_first_own (hcols : Column.DifferByKey cols) {seen : List Column}
    (hseen : seen ⊆ cols) (other : List Column) : Agree cols .first seen .own other :=
  fun _ hmore _ hc ↦ first_eq hcols (List.append_subset.mpr ⟨hseen, hmore⟩) (hmore hc)

theorem QueryItem.value_first_eq (hcols : Column.DifferByKey cols) (v : Expr → Value)
    (item : QueryItem) {seen : List Column} (hseen : seen ⊆ cols)
    (hitem : item.mappedColumns ⊆ cols) : item.value .first v seen = item.value .own v [] := by
  cases item with
  | scalar e type label => rfl
  | entity graph =>
    change graph.columns ⊆ cols at hitem
    refine graph.value_congr graph.rootNode fun site hsite ↦ ?_
    rw [Naming.first_eq hcols (List.append_subset.mpr ⟨hseen, hitem⟩)
      (hitem (List.mem_map_of_mem hsite))]
    rfl
  | subquery query label =>
    rw [QueryItem.value, QueryItem.value, Query.block, Query.block,
      query.demands_congr (Naming.agree_first_own hcols hseen []) hitem]

theorem QueryItem.values_first_eq (hcols : Column.DifferByKey cols) (v : Expr → Value)
    (items : List QueryItem) {seen : List Column} (hseen : seen ⊆ cols)
    (hitems : QueryItem.mappedColumnsAll items ⊆ cols) :
    QueryItem.values .first v seen items = items.mapM (QueryItem.value .own v []) := by
  induction items generalizing seen with
  | nil => rfl
  | cons item rest ih =>
    obtain ⟨hitem, hrest⟩ := List.append_subset.mp hitems
    have hcolumns := List.Subset.trans (QueryItem.columns_subset_mappedColumns item) hitem
    rw [QueryItem.values, List.mapM_cons, item.value_first_eq hcols v hseen hitem,
      ih (List.append_subset.mpr ⟨hseen, hcolumns⟩) hrest]

end

/-- For a consistent query it does not matter whether columns are taken for themselves or for the
first ones of their keys. -/
theorem Query.Consistent.values_first_eq {query : Query} (h : query.Consistent)
    (v : Expr → Value) : QueryItem.values .first v [] query.selections = query.evaluate v := by
  obtain ⟨selections, tables⟩ := query
  exact QueryItem.values_first_eq h.differByKey v selections (List.nil_subset _)
    (List.Subset.refl _)

end ObjectSelect
