import ObjectSelect.Proofs.Faults
import ObjectSelect.Proofs.Reading

/-!
# Nested queries on their own

A nested query is lowered inside the blocks around it and takes the columns that they have asked for
from them. In a consistent query a column taken from another block is the very column that was asked
for, so what surrounds a nested query does not show in its block: lowering the nested query on its
own gives the same block. `Query.NestedAlone` says so of all nested queries of a query, and of
theirs.

Two facts are needed of a nested query, and neither mentions a stack: what it asks for depends on
the columns asked for before only in what they stand for (`Query.demands_congr`), and no more does
the first fault that is found in it (`Query.fault?_congr`). In a consistent query every column
stands for itself (`Naming.agree_first`), so a nested query can be lowered on its own because it
could be lowered where it stands.
-/

set_option autoImplicit false
set_option relaxedAutoImplicit false

namespace ObjectSelect

mutual

/-- Each nested query of a lowered query can be lowered on its own, sharing throughout if `shares`
is set. It then has a single selection. The reader made for the nested query reads, at the type of
that selection, a position of the select list where the block that was made alone stands as an
expression. And the same holds in turn of the nested query lowered alone. -/
def Query.NestedAlone (shares : Bool) : Query → Lowered → Prop
  | ⟨selections, _⟩, lowered =>
    QueryItem.AllNestedAlone shares lowered.spec selections lowered.readers
  termination_by structural query => query

/-- The same of a thing that a query selects, if it is a nested query, with the reader made for
it. -/
def QueryItem.NestedAlone (shares : Bool) (spec : QuerySpec) : QueryItem → Reader → Prop
  | .subquery query label, reader => ∃ alone only position item,
      lower ⟨shares, shares⟩ query = .ok alone ∧ alone.spec.selections = [only] ∧
      reader = .basic ⟨position, only.type⟩ label ∧ spec.selections[position]? = some item ∧
      (item.expr == .subquery alone.spec) = true ∧ query.NestedAlone shares alone
  | .scalar _ _ _, _ => True
  | .entity _, _ => True
  termination_by structural item => item

/-- The same of things that a query selects, each with its reader. -/
def QueryItem.AllNestedAlone (shares : Bool) (spec : QuerySpec) :
    List QueryItem → List Reader → Prop
  | [], readers => readers = []
  | item :: rest, readers => ∃ reader others, readers = reader :: others ∧
      item.NestedAlone shares spec reader ∧ QueryItem.AllNestedAlone shares spec rest others
  termination_by structural items => items

end

/-! ### Faults under namings that agree -/

section

variable {cols : List Column} {naming naming' : Naming}

theorem Query.width_congr (shares : Bool) (query : Query) {seen seen' : List Column}
    (h : Naming.Agree cols naming seen naming' seen') (hquery : query.mappedColumns ⊆ cols) :
    query.width shares naming seen = query.width shares naming' seen' := by
  rw [width, width, ← query.filterMap_site_demands, ← query.filterMap_site_demands,
    query.demands_congr h hquery]

mutual

/-- The first fault of a query is the same under namings that agree on its columns. -/
theorem Query.fault?_congr (shares : Bool) : ∀ (query : Query) {seen seen' : List Column},
    Naming.Agree cols naming seen naming' seen' → query.mappedColumns ⊆ cols →
    query.fault? shares naming seen = query.fault? shares naming' seen'
  | ⟨selections, _⟩, seen, seen' => by
    intro h hquery
    rw [Query.fault?, Query.fault?, QueryItem.faultAll?_congr shares selections h hquery]
  termination_by structural query => query

theorem QueryItem.fault?_congr (shares : Bool) : ∀ (item : QueryItem) {seen seen' : List Column},
    Naming.Agree cols naming seen naming' seen' → item.mappedColumns ⊆ cols →
    item.fault? shares naming seen = item.fault? shares naming' seen'
  | .scalar _ _ _, _, _ => fun _ _ ↦ rfl
  | .entity _, _, _ => fun _ _ ↦ rfl
  | .subquery query _, seen, seen' => by
    intro h hitem
    rw [QueryItem.fault?, QueryItem.fault?, query.fault?_congr shares h hitem,
      query.width_congr shares h hitem]
  termination_by structural item => item

theorem QueryItem.faultAll?_congr (shares : Bool) : ∀ (items : List QueryItem)
    {seen seen' : List Column}, Naming.Agree cols naming seen naming' seen' →
    QueryItem.mappedColumnsAll items ⊆ cols →
    QueryItem.faultAll? shares naming seen items = QueryItem.faultAll? shares naming' seen' items
  | [], _, _ => fun _ _ ↦ rfl
  | item :: rest, seen, seen' => by
    intro h hitems
    obtain ⟨hitem, hrest⟩ := List.append_subset.mp hitems
    have hcolumns := List.Subset.trans item.columns_subset_mappedColumns hitem
    rw [QueryItem.faultAll?, QueryItem.faultAll?, item.fault?_congr shares h hitem,
      QueryItem.faultAll?_congr shares rest (h.append hcolumns) hrest]
  termination_by structural items => items

end

end

/-! ### Lowering a nested query alone -/

section

variable {cols : List Column}

/-- Where columns differ by their keys, it does not matter which of them were seen. -/
theorem Naming.agree_first (hcols : Column.DifferByKey cols) {seen other : List Column}
    (hseen : seen ⊆ cols) (hother : other ⊆ cols) : Agree cols .first seen .first other := by
  intro more hmore c hc
  rw [first_eq hcols (List.append_subset.mpr ⟨hseen, hmore⟩) (hmore hc),
    first_eq hcols (List.append_subset.mpr ⟨hother, hmore⟩) (hmore hc)]

/-- A nested query without fault that selects one value is lowered on its own to the block that it
has inside the blocks around it. -/
theorem Query.exists_alone (hcols : Column.DifferByKey cols) (shares : Bool) {query : Query}
    {seen : List Column} (hseen : seen ⊆ cols) (hquery : query.mappedColumns ⊆ cols)
    (hfault : query.fault? shares .first seen = none)
    (hwidth : query.width shares .first seen = 1) :
    ∃ alone only, lower ⟨shares, shares⟩ query = .ok alone ∧ alone.spec.selections = [only] ∧
      alone.spec = query.block .first seen ∧ only.type = (query.block .first seen).type := by
  have hagree := Naming.agree_first hcols hseen (List.nil_subset cols)
  rw [query.fault?_congr shares hagree hquery] at hfault
  rw [query.width_congr shares hagree hquery] at hwidth
  have hblock : query.block .first seen = query.block .first [] := by
    rw [block, block, query.demands_congr hagree hquery]
  obtain ⟨alone, halone⟩ := (exists_lower_iff ⟨shares, shares⟩ query).mpr hfault
  have hlowers := lowersTo_of_lower halone
  obtain ⟨only, honly⟩ := List.length_eq_one_iff.mp (hlowers.length_selections.trans hwidth)
  rw [hblock]
  exact ⟨alone, only, halone, honly, hlowers.block_of_selections_eq honly⟩

mutual

theorem Query.nestedAlone_of_lower (hcols : Column.DifferByKey cols) : ∀ (query : Query)
    {config : Config} {lowered : Lowered}, query.mappedColumns ⊆ cols →
    lower config query = .ok lowered → query.NestedAlone config.shareSubquerySelections lowered
  | ⟨selections, tables⟩, config, lowered => by
    intro hquery hlower
    have hlowers := Query.lowersTo_of_lower hlower
    have hfault :
        QueryItem.faultAll? config.shareSubquerySelections .first [] selections = none := by
      have hquery := (exists_lower_iff config _).mp ⟨lowered, hlower⟩
      rw [Query.fault?] at hquery
      split at hquery
      · cases hquery
      · exact hquery
    exact QueryItem.allNestedAlone_of_readBy hcols config.shareSubquerySelections lowered.spec
      selections (List.nil_subset cols) hquery hlowers.readers hlowers.forall₂_places hfault
  termination_by structural query => query

theorem QueryItem.nestedAlone_of_readBy (hcols : Column.DifferByKey cols) (shares : Bool)
    (spec : QuerySpec) : ∀ (item : QueryItem) {seen : List Column} {positions : List Nat}
    {reader : Reader}, seen ⊆ cols → item.mappedColumns ⊆ cols →
    item.ReadBy seen positions reader →
    List.Forall₂ (fun (d : Demand) position ↦ ∃ item,
      spec.selections[position]? = some item ∧ (item.expr == d.expr) = true)
      (item.demands .first seen) positions →
    item.fault? shares .first seen = none → item.NestedAlone shares spec reader
  | .scalar _ _ _, _, _, _ => fun _ _ _ _ _ ↦ trivial
  | .entity _, _, _, _ => fun _ _ _ _ _ ↦ trivial
  | .subquery query label, seen, _, _ => by
    rintro hseen hquery ⟨position, rfl, rfl⟩ hrow hfault
    obtain ⟨⟨item, hitem, hexpr⟩, -⟩ := List.forall₂_cons.mp hrow
    obtain ⟨hnone, harity⟩ := Option.or_eq_none_iff.mp hfault
    have hwidth := arityFault?_eq_none_iff.mp harity
    obtain ⟨alone, only, halone, honly, hspec, htype⟩ :=
      query.exists_alone hcols shares hseen hquery hnone hwidth
    refine ⟨alone, only, position, item, halone, honly, by rw [htype], hitem, ?_,
      query.nestedAlone_of_lower hcols hquery halone⟩
    rw [hspec]
    exact hexpr
  termination_by structural item => item

theorem QueryItem.allNestedAlone_of_readBy (hcols : Column.DifferByKey cols) (shares : Bool)
    (spec : QuerySpec) : ∀ (items : List QueryItem) {seen : List Column} {positions : List Nat}
    {readers : List Reader}, seen ⊆ cols → QueryItem.mappedColumnsAll items ⊆ cols →
    QueryItem.AllReadBy seen items positions readers →
    List.Forall₂ (fun (d : Demand) position ↦ ∃ item,
      spec.selections[position]? = some item ∧ (item.expr == d.expr) = true)
      (QueryItem.demandsAll .first seen items) positions →
    QueryItem.faultAll? shares .first seen items = none →
    QueryItem.AllNestedAlone shares spec items readers
  | [], seen, _, _ => by
    rintro - - ⟨-, rfl⟩ - -
    rfl
  | item :: rest, seen, _, _ => by
    rintro hseen hitems ⟨own, below, reader, others, rfl, rfl, hown, hbelow⟩ hrow hfault
    obtain ⟨hitem, hrest⟩ := List.append_subset.mp hitems
    have hcolumns := List.Subset.trans (QueryItem.columns_subset_mappedColumns item) hitem
    obtain ⟨hrow, hrows⟩ := forall₂_append_of_length_eq (QueryItem.length_of_readBy hown) hrow
    obtain ⟨hfault, hfaults⟩ := Option.or_eq_none_iff.mp hfault
    exact ⟨reader, others, rfl,
      item.nestedAlone_of_readBy hcols shares spec hseen hitem hown hrow hfault,
      QueryItem.allNestedAlone_of_readBy hcols shares spec rest
        (List.append_subset.mpr ⟨hseen, hcolumns⟩) hrest hbelow hrows hfaults⟩
  termination_by structural items => items

end

end

namespace Query

/-- Nested queries are lowered as if nothing surrounded them. Assumes: a consistent query is
lowered. Then each of its nested queries can be lowered on its own, and the selection that the
reader of the nested query reads is the block that was made alone, whatever comes before the nested
query and whatever columns it shares with the blocks around it. The same holds of the queries nested
in it, at any depth. -/
theorem nestedAlone_of_consistent {config : Config} {query : Query} {lowered : Lowered}
    (hlower : lower config query = .ok lowered) (hconsistent : query.Consistent) :
    query.NestedAlone config.shareSubquerySelections lowered :=
  query.nestedAlone_of_lower hconsistent.differByKey (List.Subset.refl _) hlower

/-- A person and, nested twice, the name of the same person. -/
def nameWithin : Query :=
  ⟨[.entity .person,
    .subquery ⟨[.subquery ⟨[.entity ⟨"Person", some "inner", ⟨"person", "p"⟩,
        [⟨"name", "name", .string, false⟩], []⟩], []⟩ none], [⟨"person", "p"⟩]⟩ (some "name")], []⟩

theorem nameWithin_nestedAlone : ∃ lowered, lower .flat nameWithin = .ok lowered ∧
    nameWithin.NestedAlone true lowered := by
  have hok : (lower .flat nameWithin).toBool = true := by decide +kernel
  cases hlower : lower .flat nameWithin with
  | error failure => simp [hlower, Except.toBool] at hok
  | ok lowered => exact ⟨lowered, rfl, nestedAlone_of_consistent hlower (by decide)⟩

end Query

end ObjectSelect
