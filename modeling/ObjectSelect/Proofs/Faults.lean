import ObjectSelect.Proofs.Contracts
import ObjectSelect.Proofs.Lowering

/-!
# The first fault of a query

Which fault lowering reports can be read off the query: `Query.fault?` looks at the parts of a query
in order and gives the first fault that it meets, without a stack, a cache or a select list. A block
has to select something, an entity has to map an attribute and must not fetch an association twice,
and a nested query has to select a single value. The check writes the text of a place itself, from
the names on the way to it. How many values a block selects is also said of the query
(`Query.width`): one for each expression that it asks for, or, where sharing is limited to fetch
trees, one for each expression of a fetch tree and one for everything else.

`Lowering.Reports` compares the end of a step with the fault that is expected of it. The comparison
is kept when steps follow one another (`Lowering.Reports.bind`), so the recursion of the check and
that of lowering are followed side by side. The width is the number of demands that repeat none
before them (`Ledger.length_firsts_shared`, `Ledger.length_firsts_scoped`).
-/

set_option autoImplicit false
set_option relaxedAutoImplicit false

namespace ObjectSelect

theorem prod_beq_iff {α β : Type} [BEq α] [BEq β] {x y : α × β} :
    (x == y) = true ↔ (x.1 == y.1) = true ∧ (x.2 == y.2) = true :=
  Bool.and_eq_true_iff

instance equivBEq_prod {α β : Type} [BEq α] [BEq β] [EquivBEq α] [EquivBEq β] :
    EquivBEq (α × β) where
  rfl := prod_beq_iff.mpr ⟨BEq.rfl, BEq.rfl⟩
  symm h := prod_beq_iff.mpr ((prod_beq_iff.mp h).imp BEq.symm BEq.symm)
  trans h h' := prod_beq_iff.mpr ⟨BEq.trans (prod_beq_iff.mp h).1 (prod_beq_iff.mp h').1,
    BEq.trans (prod_beq_iff.mp h).2 (prod_beq_iff.mp h').2⟩

namespace Demand

/-- The fetch tree that asks for a demand, named by its root, with the expression demanded. -/
def site? (d : Demand) : Option (Path × Expr) :=
  d.node.map fun node ↦ (node.rootPath, d.expr)

end Demand

namespace Ledger

/-- A block that shares throughout selects each expression once. -/
theorem length_firsts_shared (start : Nat) (ds : List Demand) :
    ((empty true start).noteAll ds).firsts.length = (ds.map Demand.expr).eraseDups.length := by
  rw [firsts_shared, eraseDups_eq_eraseDupsBy, ← map_eraseDupsBy (fun e ↦ e), List.length_map]

/-- A block that shares within fetch trees selects each expression once for every fetch tree, and
everything that is asked for outside fetch trees. -/
theorem length_firsts_scoped (start : Nat) (ds : List Demand) :
    ((empty false start).noteAll ds).firsts.length =
      ds.countP (·.node.isNone) + (ds.filterMap Demand.site?).eraseDups.length := by
  induction ds using List.reverseRecOn with
  | nil => rfl
  | append_singleton ds d ih =>
    rw [firsts_noteAll_append_singleton, List.length_append, ih, List.countP_append,
      List.filterMap_append]
    cases hnode : d.node with
    | none =>
      have hany : ds.any (d.repeats false) = false := by
        simp [Demand.repeats, Demand.scope, Scope.of, hnode]
      simp [hany, hnode, Demand.site?]
      omega
    | some node =>
      have hany : (ds.filterMap Demand.site?).any (· == (node.rootPath, d.expr)) =
          ds.any (d.repeats false) := by
        rw [List.any_filterMap]
        congr 1
        funext earlier
        cases hearlier : earlier.node with
        | none => simp [Demand.site?, Demand.repeats, Demand.scope, Scope.of, hnode, hearlier]
        | some other =>
          rw [Bool.eq_iff_iff, Demand.repeats_iff]
          simp [Demand.site?, Demand.scope, Scope.of, hnode, hearlier, prod_beq_iff]
      have hsite : [d].filterMap Demand.site? = [(node.rootPath, d.expr)] := by
        simp [Demand.site?, hnode]
      have hnone : [d].countP (·.node.isNone) = 0 := by simp [hnode]
      rw [hsite, hnone, eraseDups_append_singleton, hany, List.length_append, Nat.add_zero,
        Nat.add_assoc]
      split <;> rfl

end Ledger

/-! ### The check -/

namespace EntityGraph

/-- What a selected entity is called: by its name, and by its label in parentheses behind. -/
def rootText (graph : EntityGraph) : String :=
  match graph.label with
  | none => graph.entity
  | some label => graph.entity ++ "(" ++ label ++ ")"

mutual

/-- The first fault of an entity that is read at a place, which is given as the text that names it
in messages. -/
def fault? (place : String) : EntityGraph → Option Fault
  | ⟨_, _, _, attributes, fetches⟩ =>
    if attributes.isEmpty then some (.emptyEntityGraph place) else fetchFault? place [] fetches
  termination_by structural graph => graph

/-- The first fault of the associations fetched at a place, after others of the names `earlier`. A
name that comes again is a fault before what is fetched under it is looked at. -/
def fetchFault? (place : String) (earlier : List String) :
    List (String × EntityGraph) → Option Fault
  | [] => none
  | (name, graph) :: rest =>
    if name ∈ earlier then some (.duplicateFetch (place ++ "." ++ name))
    else (graph.fault? (place ++ "." ++ name)).or (fetchFault? place (earlier ++ [name]) rest)
  termination_by structural fetches => fetches

end

theorem render_path_rootNode (graph : EntityGraph) :
    graph.rootNode.path.render = graph.rootText := by
  rw [rootText, rootNode, FetchNode.path, Path.root, Path.render]
  cases graph.label with
  | none => simp
  | some label => simp [String.append_assoc]

end EntityGraph

namespace QueryItem

/-- Whether a selected thing is a single value. -/
def isSingle : QueryItem → Bool
  | entity _ => false
  | _ => true

/-- The column expressions that a selected thing asks for, each with the path of the selected
entity, whichever entity of the fetch tree maps the column. -/
def sites (naming : Naming) (seen : List Column) : QueryItem → List (Path × Expr)
  | entity graph => graph.columns.map fun c ↦
      (⟨graph.entity, graph.label, []⟩, .column (naming (seen ++ graph.columns) c))
  | _ => []

/-- The same of things selected one after the other. -/
def sitesAll (naming : Naming) (seen : List Column) : List QueryItem → List (Path × Expr)
  | [] => []
  | item :: rest => item.sites naming seen ++ sitesAll naming (seen ++ item.columns) rest

end QueryItem

/-- The number of values that the block of a query selects. -/
def Query.width (shares : Bool) (naming : Naming) (seen : List Column) (query : Query) : Nat :=
  if shares then ((query.demands naming seen).map Demand.expr).eraseDups.length
  else query.selections.countP QueryItem.isSingle +
    (QueryItem.sitesAll naming seen query.selections).eraseDups.length

/-- The fault of a nested query that selects `width` values. -/
def arityFault? (width : Nat) : Option Fault :=
  if width != 1 then some (.subqueryArity 1 width) else none

theorem arityFault?_eq_none_iff {width : Nat} : arityFault? width = none ↔ width = 1 := by
  simp [arityFault?]

mutual

/-- The first fault of a query inside blocks that have asked for the columns in `seen`, where nested
queries share throughout if `shares` is set. -/
def Query.fault? (shares : Bool) (naming : Naming) (seen : List Column) : Query → Option Fault
  | ⟨selections, _⟩ =>
    if selections.isEmpty then some .emptySelection
    else QueryItem.faultAll? shares naming seen selections
  termination_by structural query => query

/-- The first fault of a selected thing. -/
def QueryItem.fault? (shares : Bool) (naming : Naming) (seen : List Column) :
    QueryItem → Option Fault
  | .scalar _ _ _ => none
  | .entity graph => graph.fault? graph.rootText
  | .subquery query _ =>
    (query.fault? shares naming seen).or (arityFault? (query.width shares naming seen))
  termination_by structural item => item

/-- The first fault of selected things, one after the other. -/
def QueryItem.faultAll? (shares : Bool) (naming : Naming) (seen : List Column) :
    List QueryItem → Option Fault
  | [] => none
  | item :: rest =>
    (item.fault? shares naming seen).or
      (QueryItem.faultAll? shares naming (seen ++ item.columns) rest)
  termination_by structural items => items

end

/-! ### The size of a select list -/

/-- What a query asks for outside fetch trees are the single values that it selects. -/
theorem QueryItem.countP_demandsAll (naming : Naming) (seen : List Column)
    (items : List QueryItem) :
    (demandsAll naming seen items).countP (·.node.isNone) = items.countP isSingle := by
  induction items generalizing seen with
  | nil => rfl
  | cons item rest ih =>
    rw [demandsAll, List.countP_append, ih, List.countP_cons]
    cases item with
    | entity graph => simp [demands, isSingle, Column.demand, List.countP_map, Function.comp_def]
    | scalar | subquery => simp [demands, isSingle, Nat.add_comm]

/-- What a selected thing asks for in its fetch tree are its columns, at the root of the tree. -/
theorem QueryItem.filterMap_site_demands (naming : Naming) (seen : List Column) (item : QueryItem) :
    (item.demands naming seen).filterMap Demand.site? = item.sites naming seen := by
  cases item with
  | scalar | subquery => rfl
  | entity graph =>
    have hsite : ∀ site ∈ graph.columnsAt graph.rootNode,
        (Column.demand naming (seen ++ graph.columns) site).site? = some
          (⟨graph.entity, graph.label, []⟩, .column (naming (seen ++ graph.columns) site.2)) := by
      intro site hsite
      rw [Demand.site?, Column.demand, Option.map_some, graph.rootPath_of_mem_columnsAt site hsite]
      rfl
    rw [demands, sites, EntityGraph.columns, List.filterMap_map, List.map_map]
    exact (List.filterMap_congr hsite).trans (congrFun List.filterMap_eq_map _)

theorem QueryItem.filterMap_site_demandsAll (naming : Naming) (seen : List Column)
    (items : List QueryItem) :
    (demandsAll naming seen items).filterMap Demand.site? = sitesAll naming seen items := by
  induction items generalizing seen with
  | nil => rfl
  | cons item rest ih =>
    rw [demandsAll, sitesAll, List.filterMap_append, filterMap_site_demands, ih]

theorem Query.filterMap_site_demands (naming : Naming) (seen : List Column) (query : Query) :
    (query.demands naming seen).filterMap Demand.site? =
      QueryItem.sitesAll naming seen query.selections := by
  obtain ⟨selections, tables⟩ := query
  rw [demands, QueryItem.filterMap_site_demandsAll]

/-- As many selections are made for what a query asks for as its width says. -/
theorem Query.length_firsts_demands (shares : Bool) (naming : Naming) (seen : List Column)
    (start : Nat) (query : Query) :
    ((Ledger.empty shares start).noteAll (query.demands naming seen)).firsts.length =
      query.width shares naming seen := by
  cases shares with
  | true =>
    rw [Ledger.length_firsts_shared]
    rfl
  | false =>
    rw [Ledger.length_firsts_scoped, Query.filterMap_site_demands]
    obtain ⟨selections, tables⟩ := query
    rw [Query.demands, QueryItem.countP_demandsAll]
    rfl

/-- A lowered block selects as many values as its query says. -/
theorem Query.LowersTo.length_selections {shares : Bool} {seen : List Column} {query : Query}
    {lowered : Lowered} (h : query.LowersTo shares seen lowered) :
    lowered.spec.selections.length = query.width shares .first seen := by
  rw [h.spec_eq]
  simp only [Ledger.length_selections, Query.length_firsts_demands]

/-- Inside a block that is being made, the innermost frame can select. -/
theorem Stack.Makes.inside {outer stack : Stack} {spec : QuerySpec} {ledger : Ledger}
    {seen : List Column} (h : Makes outer spec ledger seen stack) : Inside outer stack := by
  obtain ⟨frame, hstack, hframe⟩ := h.exists_frame
  exact ⟨frame, ⟨⟨_, hframe.part_eq⟩, hframe.flat_eq ▸ hframe.remembers.fits⟩, hstack⟩

namespace Lowering

open Stack

/-! ### The fault that a step reports -/

section

variable {α β : Type} {stack : Stack}

/-- A step ends with the fault that is expected of it, or with a result if none is. -/
def Reports (expected : Option Fault) : EStateM.Result Failure Stack α → Prop
  | .ok _ _ => expected = none
  | .error (.fault fault) _ => expected = some fault
  | .error (.violation _) _ => False

theorem reports_pure (result : α) : Reports none ((pure result : Step α) stack) :=
  rfl

/-- Of two steps the first fault is reported. The second one starts where the first one succeeds. -/
theorem Reports.bind {expected later : Option Fault} {step : Step α} {next : α → Step β}
    (h : Reports expected (step stack))
    (hnext : ∀ a middle, step stack = .ok a middle → Reports later (next a middle)) :
    Reports (expected.or later) ((step >>= next) stack) := by
  change Reports _ (EStateM.bind step next stack)
  rw [EStateM.bind]
  cases hstep : step stack with
  | ok a middle =>
    rw [hstep] at h
    obtain rfl : expected = none := h
    exact hnext a middle hstep
  | error failure after =>
    rw [hstep] at h
    cases failure with
    | fault fault =>
      obtain rfl : expected = some fault := h
      rfl
    | violation violation => exact h.elim

/-- A step that succeeds leaves the report to the next one. -/
theorem reports_bind_of_eq_ok {expected : Option Fault} {step : Step α} {next : α → Step β} {a : α}
    {middle : Stack} (hstep : step stack = .ok a middle)
    (hnext : Reports expected (next a middle)) : Reports expected ((step >>= next) stack) := by
  change Reports _ (EStateM.bind step next stack)
  rw [EStateM.bind, hstep]
  exact hnext

/-- A check that refuses reports its fault before anything else. -/
theorem reports_check {condition : Bool} {fault : Fault} {expected : Option Fault} {step : Step α}
    (h : condition = false → Reports expected (step stack)) :
    Reports (if condition = true then some fault else expected)
      ((if condition = true then refuse (α := PUnit) fault >>= fun _ ↦ step else step) stack) := by
  cases condition with
  | true => rfl
  | false => exact h rfl

theorem EndsIn.of_eq_ok {p : Stack → Prop} {step : Step α} {a : α} {after : Stack}
    (h : EndsIn p (step stack)) (hok : step stack = .ok a after) : p after := by
  rw [hok] at h
  exact h

end

variable {outer stack : Stack}

/-- Nothing is wrong with attributes. -/
theorem reports_lowerAttributes (graph : EntityGraph) (node : FetchNode)
    (attributes : List Attribute) (cells : List (String × Cell)) (h : Inside outer stack) :
    Reports none (lowerAttributes graph node attributes cells stack) := by
  induction attributes generalizing cells stack with
  | nil => exact reports_pure cells
  | cons attr rest ih =>
    obtain ⟨answer, middle, hcolumn, hmiddle⟩ :=
      h.column (graph.columnKey attr) (.column (attr.column graph.table.correlation))
    obtain ⟨item, last, hselect, hlast⟩ := hmiddle.select answer.1 attr.type (some node)
    rw [lowerAttributes]
    refine reports_bind_of_eq_ok ((onStack_eq_ok _ _).mpr hcolumn) ?_
    exact reports_bind_of_eq_ok ((onStack_eq_ok _ _).mpr hselect) (ih _ hlast)

mutual

theorem reports_lowerEntity (node : FetchNode) : ∀ (graph : EntityGraph) {stack : Stack},
    Inside outer stack → Reports (graph.fault? node.path.render) (lowerEntity node graph stack)
  | ⟨entity, label, table, attributes, fetches⟩, stack => by
    intro h
    rw [lowerEntity, EntityGraph.fault?]
    refine reports_check fun _ ↦ ?_
    refine reports_bind_of_eq_ok rfl ?_
    have htable := h.mapCurrent fun frame hframe ↦ hframe.addTable table
    have hattributes := endsIn_lowerAttributes ⟨entity, label, table, attributes, fetches⟩ node
      attributes [] htable
    rw [← Option.none_or (o := EntityGraph.fetchFault? _ _ _)]
    refine (reports_lowerAttributes _ node attributes [] htable).bind
      fun cells middle hcells ↦ ?_
    rw [← Option.or_none (o := EntityGraph.fetchFault? _ _ _)]
    exact (reports_lowerFetches node fetches [] (hattributes.of_eq_ok hcells)).bind
      fun readers last _ ↦ reports_pure _
  termination_by structural graph => graph

theorem reports_lowerFetches (node : FetchNode) : ∀ (fetches : List (String × EntityGraph))
    (done : List (String × EntityReader)) {stack : Stack}, Inside outer stack →
    Reports (EntityGraph.fetchFault? node.path.render (done.map Prod.fst) fetches)
      (lowerFetches node fetches done stack)
  | [], done, stack => fun _ ↦ reports_pure done
  | (name, graph) :: rest, done, stack => by
    intro h
    have hname : name ∈ done.map Prod.fst ↔ (done.lookup name).isSome = true := by
      simp [List.lookup_isSome_iff]
    have hplace : node.path.render ++ "." ++ name = (node.fetch name).path.render :=
      (node.path.render_append name).symm
    rw [lowerFetches, EntityGraph.fetchFault?, if_congr hname rfl rfl, hplace]
    refine reports_check fun hnew ↦ ?_
    rw [Option.isSome_eq_false_iff, Option.isNone_iff_eq_none] at hnew
    have hgraph := endsIn_lowerEntity (node.fetch name) graph h
    refine (reports_lowerEntity (node.fetch name) graph h).bind fun reader middle hreader ↦ ?_
    have hnames : (Assoc.put name reader done).map Prod.fst = done.map Prod.fst ++ [name] := by
      rw [Assoc.put_of_lookup_eq_none hnew, List.map_append, List.map_singleton]
    rw [← hnames]
    exact reports_lowerFetches node rest _ (hgraph.of_eq_ok hreader)
  termination_by structural fetches => fetches

end

mutual

/-- A block reports the first fault of its query. -/
theorem reports_lowerBlock (config : Config) (flat : Bool) : ∀ (query : Query) {stack : Stack}
    {seen : List Column}, stack.Knows seen →
    Reports (query.fault? config.shareSubquerySelections .first seen)
      (lowerBlock config flat query stack)
  | ⟨selections, tables⟩, stack, seen => by
    intro h
    rw [lowerBlock, Query.fault?]
    refine reports_check fun _ ↦ ?_
    refine reports_bind_of_eq_ok rfl ?_
    obtain ⟨inside, hinside, hclause⟩ : ∃ inside,
        Makes stack (.ofTables tables) (.empty flat 0) seen inside ∧
        Stack.withClause .select (attempt (lowerItems config selections))
            (stack.push (.spec (.ofTables tables)) flat) =
          .ok (attempt (lowerItems config selections) inside).1
            ((attempt (lowerItems config selections) inside).2.mapCurrent
              fun frame ↦ { frame with clause := .irrelevant }) :=
      ⟨_, (Makes.push h tables flat).setClause .select, rfl⟩
    refine reports_bind_of_eq_ok ((onStack_eq_ok _ _).mpr hclause) ?_
    obtain ⟨-, hlast⟩ := lawful_attempt (endsIn_lowerItems config selections hinside.inside)
    obtain ⟨spec, hpop⟩ := (hlast.mapCurrent fun frame hframe ↦ hframe.setClause .irrelevant).pop
    refine reports_bind_of_eq_ok ((modifyGet_eq_ok _ _).mpr hpop) ?_
    have hitems := reports_lowerItems config selections hinside
    unfold attempt
    cases hresult : lowerItems config selections inside with
    | ok readers last =>
      rw [hresult] at hitems
      exact hitems
    | error failure last =>
      rw [hresult] at hitems
      cases failure with
      | fault fault => exact hitems
      | violation violation => exact hitems.elim
  termination_by structural query => query

theorem reports_lowerItem (config : Config) : ∀ (item : QueryItem) {outer stack : Stack}
    {spec : QuerySpec} {ledger : Ledger} {seen : List Column},
    Makes outer spec ledger seen stack →
    Reports (item.fault? config.shareSubquerySelections .first seen) (lowerItem config item stack)
  | .scalar e type label, outer, stack, spec, ledger, seen => by
    intro h
    obtain ⟨item, last, hselect, -⟩ := h.inside.select e type none
    rw [lowerItem, QueryItem.fault?]
    exact reports_bind_of_eq_ok ((onStack_eq_ok _ _).mpr hselect) (reports_pure _)
  | .entity graph, outer, stack, spec, ledger, seen => by
    intro h
    rw [lowerItem, QueryItem.fault?, ← Option.or_none (o := graph.fault? _),
      ← graph.render_path_rootNode]
    exact (reports_lowerEntity graph.rootNode graph h.inside).bind
      fun reader last _ ↦ reports_pure _
  | .subquery query label, outer, stack, spec, ledger, seen => by
    intro h
    rw [lowerItem, QueryItem.fault?]
    refine (reports_lowerBlock config config.shareSubquerySelections query h.knows).bind
      fun lowered middle hblock ↦ ?_
    obtain ⟨rfl, hlowered⟩ :=
      lowersTo_of_lowerBlock config config.shareSubquerySelections query h.knows hblock
    rw [← hlowered.length_selections]
    refine reports_check fun hcount ↦ ?_
    obtain ⟨only, -, hfirst⟩ := exists_selectionAt_zero hcount
    refine reports_bind_of_eq_ok hfirst ?_
    obtain ⟨item, last, hselect, -⟩ := h.inside.select (.subquery lowered.spec) only.type none
    exact reports_bind_of_eq_ok ((onStack_eq_ok _ _).mpr hselect) (reports_pure _)
  termination_by structural item => item

theorem reports_lowerItems (config : Config) : ∀ (items : List QueryItem) {outer stack : Stack}
    {spec : QuerySpec} {ledger : Ledger} {seen : List Column},
    Makes outer spec ledger seen stack →
    Reports (QueryItem.faultAll? config.shareSubquerySelections .first seen items)
      (lowerItems config items stack)
  | [], outer, stack, spec, ledger, seen => fun _ ↦ reports_pure []
  | item :: rest, outer, stack, spec, ledger, seen => by
    intro h
    rw [lowerItems, QueryItem.faultAll?]
    refine (reports_lowerItem config item h).bind fun reader middle hitem ↦ ?_
    obtain ⟨hmiddle, -⟩ := makes_of_lowerItem config item h hitem
    rw [← Option.or_none (o := QueryItem.faultAll? _ _ _ _)]
    exact (reports_lowerItems config rest hmiddle).bind fun readers last _ ↦ reports_pure _
  termination_by structural items => items

end

end Lowering

/-- Either nothing is wrong with a query and it is lowered, or its first fault is reported. -/
theorem lowered_or_first_fault (config : Config) (query : Query) :
    (query.fault? config.shareSubquerySelections .first [] = none ∧
      ∃ lowered, lower config query = .ok lowered) ∨
    ∃ fault, query.fault? config.shareSubquerySelections .first [] = some fault ∧
      lower config query = .error (.fault fault) := by
  have hblock :=
    Lowering.reports_lowerBlock config config.shareSelections query Stack.knows_nil
  unfold lower Lowering.attempt
  cases hresult : Lowering.lowerBlock config config.shareSelections query [] with
  | ok lowered after =>
    rw [hresult] at hblock
    exact .inl ⟨hblock, lowered, rfl⟩
  | error failure after =>
    rw [hresult] at hblock
    cases failure with
    | fault fault => exact .inr ⟨fault, hblock, rfl⟩
    | violation violation => exact hblock.elim

/-- A query is lowered just when there is no fault in it. -/
theorem exists_lower_iff (config : Config) (query : Query) :
    (∃ lowered, lower config query = .ok lowered) ↔
      query.fault? config.shareSubquerySelections .first [] = none := by
  obtain ⟨hnone, hlower⟩ | ⟨fault, hfault, hlower⟩ := lowered_or_first_fault config query
  · exact iff_of_true hlower hnone
  · simp [hfault, hlower]

/-- A query is refused for the first fault in it, and for nothing else. -/
theorem lower_eq_error_iff (config : Config) (query : Query) (failure : Failure) :
    lower config query = .error failure ↔
      (query.fault? config.shareSubquerySelections .first []).map Failure.fault = some failure := by
  obtain ⟨hnone, lowered, hlower⟩ | ⟨fault, hfault, hlower⟩ := lowered_or_first_fault config query
  · simp [hnone, hlower]
  · simp [hfault, hlower]

/-- Which queries are lowered, and what is reported of the others. The check goes through the query
in order. If it finds no fault the query is lowered, and otherwise lowering reports the first fault
that the check finds. -/
theorem lower_eq_first_fault (config : Config) (query : Query) :
    match query.fault? config.shareSubquerySelections .first [] with
    | none => ∃ lowered, lower config query = .ok lowered
    | some fault => lower config query = .error (.fault fault) := by
  obtain ⟨hnone, hlower⟩ | ⟨fault, hfault, hlower⟩ := lowered_or_first_fault config query
  · rw [hnone]
    exact hlower
  · rw [hfault]
    exact hlower

/-- A person labelled `p`, fetched with an address that has attributes and fetches of its own. -/
def EntityGraph.personWith (attributes : List Attribute) (fetches : List (String × EntityGraph)) :
    EntityGraph :=
  ⟨"Person", some "p", ⟨"person", "p1_0"⟩, [⟨"name", "name", .string, false⟩],
    [("address", ⟨"Address", none, ⟨"address", "a1_0"⟩, attributes, fetches⟩)]⟩

/-- A person whose address has its city twice. -/
def Query.cityTwice : Query :=
  let city : EntityGraph := ⟨"City", none, ⟨"city", "c1_0"⟩, [⟨"id", "id", .int, false⟩], []⟩
  ⟨[.entity (.personWith [⟨"street", "street", .string, false⟩] [("city", city), ("city", city)])],
    []⟩

/-- A person whose address maps nothing, after a number. -/
def Query.addressEmpty : Query :=
  ⟨[.scalar (.function "count" []) .int none, .entity (.personWith [] [])], []⟩

/-- A nested query for the names of a person and of the address, and for the street. A formula asks
for the name of the address again, and the owner of the address and a scalar for that of the
person. -/
def Query.namesInside : Query :=
  let owner : EntityGraph :=
    ⟨"Person", none, ⟨"person", "p1_0"⟩, [⟨"owner", "name", .string, false⟩], []⟩
  let person : EntityGraph :=
    .personWith [⟨"name", "name", .string, false⟩, ⟨"title", "name", .string, true⟩,
      ⟨"street", "street", .string, false⟩] [("owner", owner)]
  ⟨[.subquery ⟨[.entity person, .scalar (.column ⟨"p1_0", "name", false, .string⟩) .string none],
    []⟩ none], []⟩

/-- An entity is reported by the names on the way to it. Of what the nested query asks for, three
expressions are different. Where only fetch trees share, the owner still shares the name of the
person, and the scalar has a selection of its own. -/
theorem lower_first_fault_person :
    lower .flat .cityTwice = .error (.fault (.duplicateFetch "Person(p).address.city")) ∧
    lower .flat .addressEmpty = .error (.fault (.emptyEntityGraph "Person(p).address")) ∧
    lower .flat .namesInside = .error (.fault (.subqueryArity 1 3)) ∧
    lower .fetchScoped .namesInside = .error (.fault (.subqueryArity 1 4)) :=
  ⟨lower_eq_first_fault .flat .cityTwice, lower_eq_first_fault .flat .addressEmpty,
    lower_eq_first_fault .flat .namesInside, lower_eq_first_fault .fetchScoped .namesInside⟩

end ObjectSelect
