import ObjectSelect.Proofs.Assoc
import ObjectSelect.Proofs.StackSteps

/-!
# What lowering makes of a query

When lowering succeeds, it has made the demands of the query, in order and no others, and its
readers read the positions of the answers. `EntityGraph.ReadBy` and `QueryItem.ReadBy` say what it
means that a reader reads given positions, without a stack or a ledger.

The proof follows the recursion of lowering. For each function that works in the block being made, a
lemma `makes_of_…` says how `Stack.Makes` changes: which tables and columns are added and which
demands are noted. A nested block is made in a frame of its own and leaves the stack as it was
(`Lowering.lowersTo_of_lowerBlock`). It has a single selection, so how it shares does not show in
the enclosing block (`Query.LowersTo.block_of_selections_eq`). `Query.lowersTo_of_lower` is the
outcome for a whole query.
-/

set_option autoImplicit false
set_option relaxedAutoImplicit false

namespace ObjectSelect

/-- The cells of attributes that are read at given positions, each name once. -/
def Attribute.cells (attributes : List Attribute) (positions : List Nat) : List (String × Cell) :=
  attributes.zipWith (fun attr position ↦ (attr.name, ⟨position, attr.type⟩)) positions

namespace EntityGraph

mutual

/-- `reader` reads an entity at `node`, each of its columns at the position given for it. -/
def ReadBy (node : FetchNode) : EntityGraph → List Nat → EntityReader → Prop
  | ⟨_, _, _, attributes, fetches⟩, positions, reader =>
    (fetches.map Prod.fst).Nodup ∧ ∃ own below,
      positions = own ++ below ∧ own.length = attributes.length ∧ reader.path = node.path ∧
      reader.attributes = Assoc.putAll [] (Attribute.cells attributes own) ∧
      FetchesReadBy node fetches below reader.fetches
  termination_by structural graph => graph

/-- `readers` read the associations fetched at `node`, under their names. -/
def FetchesReadBy (node : FetchNode) :
    List (String × EntityGraph) → List Nat → List (String × EntityReader) → Prop
  | [], positions, readers => positions = [] ∧ readers = []
  | (name, graph) :: rest, positions, readers => ∃ own below reader others,
      positions = own ++ below ∧ readers = (name, reader) :: others ∧
      graph.ReadBy (node.fetch name) own reader ∧ FetchesReadBy node rest below others
  termination_by structural fetches => fetches

end

end EntityGraph

namespace QueryItem

/-- `reader` reads a selected thing at the positions given for its demands, after the columns in
`seen`. -/
def ReadBy (seen : List Column) : QueryItem → List Nat → Reader → Prop
  | scalar _ type label, positions, reader =>
    ∃ position, positions = [position] ∧ reader = .basic ⟨position, type⟩ label
  | entity graph, positions, reader =>
    ∃ entityReader, reader = .entity entityReader ∧
      graph.ReadBy graph.rootNode positions entityReader
  | subquery query label, positions, reader =>
    ∃ position, positions = [position] ∧
      reader = .basic ⟨position, (query.block .first seen).type⟩ label

/-- `readers` read selected things, one after the other. -/
def AllReadBy (seen : List Column) : List QueryItem → List Nat → List Reader → Prop
  | [], positions, readers => positions = [] ∧ readers = []
  | item :: rest, positions, readers => ∃ own below reader others,
      positions = own ++ below ∧ readers = reader :: others ∧ item.ReadBy seen own reader ∧
      AllReadBy (seen ++ item.columns) rest below others

end QueryItem

/-- `lowered` is a query inside blocks that have asked for the columns in `seen`: its block selects
what the ledger of the query's demands holds, and its readers read the positions of the answers. -/
structure Query.LowersTo (flat : Bool) (seen : List Column) (query : Query) (lowered : Lowered) :
    Prop where
  spec_eq : lowered.spec = ⟨false,
    ((Ledger.empty flat 0).noteAll (query.demands .first seen)).selections, query.sources⟩
  readers : QueryItem.AllReadBy seen query.selections
    (((Ledger.empty flat 0).answers (query.demands .first seen)).map Selection.position)
    lowered.readers

/-- What is asked for stands in the select list at the position that it is read at. -/
theorem Query.LowersTo.forall₂_places {flat : Bool} {seen : List Column} {query : Query}
    {lowered : Lowered} (h : query.LowersTo flat seen lowered) :
    List.Forall₂ (fun (d : Demand) position ↦ ∃ item,
        lowered.spec.selections[position]? = some item ∧ (item.expr == d.expr) = true)
      (query.demands .first seen)
      (((Ledger.empty flat 0).answers (query.demands .first seen)).map Selection.position) := by
  rw [List.forall₂_map_right_iff, h.spec_eq]
  exact (Ledger.forall₂_answers rfl _).imp fun d item hitem ↦ ⟨item, hitem⟩

/-- A nested query with a single selection is lowered to the same block whether it shares or not. -/
theorem Query.LowersTo.block_of_selections_eq {flat : Bool} {seen : List Column} {query : Query}
    {lowered : Lowered} {only : Selection} (h : query.LowersTo flat seen lowered)
    (honly : lowered.spec.selections = [only]) :
    lowered.spec = query.block .first seen ∧ only.type = (query.block .first seen).type := by
  have hledger :
      ((Ledger.empty flat 0).noteAll (query.demands .first seen)).selections = [only] := by
    rw [← honly, h.spec_eq]
  have hblock : query.block .first seen = ⟨false, [only], query.sources⟩ :=
    QuerySpec.ofDemands_of_selections_eq hledger _
  rw [hblock, h.spec_eq, hledger]
  exact ⟨rfl, rfl⟩

namespace Lowering

open Stack

variable {outer stack after : Stack} {spec : QuerySpec} {ledger : Ledger} {seen : List Column}

/-- Lowering attributes asks for their columns one after the other. What is asked for after them, in
`rest`, changes nothing. -/
theorem makes_of_lowerAttributes {graph : EntityGraph} {node : FetchNode}
    {attributes : List Attribute} {cells result : List (String × Cell)} {env rest : List Column}
    (h : Makes outer spec ledger seen stack)
    (hlower : lowerAttributes graph node attributes cells stack = .ok result after)
    (henv : env = seen ++ attributes.map (·.column graph.table.correlation) ++ rest) :
    let ds := attributes.map fun attr ↦
      Column.demand .first env (node, attr.column graph.table.correlation)
    Makes outer spec (ledger.noteAll ds)
        (seen ++ attributes.map (·.column graph.table.correlation)) after ∧
      result = Assoc.putAll cells
        (Attribute.cells attributes ((ledger.answers ds).map Selection.position)) := by
  induction attributes generalizing ledger seen stack cells with
  | nil =>
    simp only [lowerAttributes, pure_eq_ok] at hlower
    obtain ⟨rfl, rfl⟩ := hlower
    simpa [Attribute.cells, Assoc.putAll] using h
  | cons attr others ih =>
    simp only [lowerAttributes, bind_eq_ok, onStack_eq_ok] at hlower
    obtain ⟨answer, middle, hcolumn, item, last, hselect, hrest⟩ := hlower
    obtain ⟨hanswer, hmiddle⟩ := h.column _ hcolumn
    -- The column itself is in `env`, so the columns after it cannot stand for it.
    have hdemand : Column.demand .first env (node, attr.column graph.table.correlation) =
        ⟨answer.1, attr.type, some node⟩ := by
      rw [Column.demand, hanswer, henv, List.map_cons, List.append_assoc, List.cons_append,
        Naming.first_append_cons]
      rfl
    obtain ⟨hitem, hlast⟩ := hmiddle.select ⟨answer.1, attr.type, some node⟩ hselect
    obtain ⟨hafter, hresult⟩ := ih hlast hrest (by simpa using henv)
    simp only [List.map_cons, hdemand, Ledger.noteAll_cons, Ledger.answers]
    refine ⟨by simpa using hafter, ?_⟩
    rw [hresult, hitem]
    rfl

mutual

/-- Lowering an entity names its tables and makes the demands for its columns, in order. What is
asked for after them, in `rest`, changes nothing. -/
theorem makes_of_lowerEntity (node : FetchNode) : ∀ (graph : EntityGraph) {stack after : Stack}
    {spec : QuerySpec} {ledger : Ledger} {seen env rest : List Column} {reader : EntityReader},
    Makes outer spec ledger seen stack → lowerEntity node graph stack = .ok reader after →
    env = seen ++ (graph.columnsAt node).map Prod.snd ++ rest →
    let ds := (graph.columnsAt node).map (Column.demand .first env)
    Makes outer (spec.addTables graph.tables) (ledger.noteAll ds)
        (seen ++ (graph.columnsAt node).map Prod.snd) after ∧
      graph.ReadBy node ((ledger.answers ds).map Selection.position) reader
  | ⟨entity, label, table, attributes, fetches⟩, stack, after, spec, ledger, seen, env, rest,
      reader => by
    intro h hlower henv
    simp only [lowerEntity, check_eq_ok, bind_eq_ok, modify_eq_ok, pure_eq_ok] at hlower
    obtain ⟨-, -, -, rfl, cells, middle, hcells, readers, last, hfetches, rfl, rfl⟩ := hlower
    have henv' : env = seen ++ attributes.map (·.column table.correlation) ++
        ((EntityGraph.fetchedColumnsAt node fetches).map Prod.snd ++ rest) := by
      simpa [EntityGraph.columnsAt, Function.comp_def] using henv
    obtain ⟨hmiddle, rfl⟩ := makes_of_lowerAttributes (h.addTable table) hcells henv'
    obtain ⟨hlast, hnodup, others, rfl, hothers⟩ :=
      makes_of_lowerFetches node fetches hmiddle hfetches List.nodup_nil
        (by simpa using henv')
    simp only [EntityGraph.columnsAt, EntityGraph.tables, List.map_append, List.map_map,
      Ledger.noteAll_append, Ledger.answers_append]
    refine ⟨?_, ?_⟩
    · simpa [Function.comp_def] using hlast
    · rw [EntityGraph.ReadBy]
      exact ⟨hnodup, _, _, rfl, by simp, rfl, rfl, hothers⟩
  termination_by structural graph => graph

/-- Lowering fetched associations does the same for each, under names that differ. -/
theorem makes_of_lowerFetches (node : FetchNode) : ∀ (fetches : List (String × EntityGraph))
    {stack after : Stack} {spec : QuerySpec} {ledger : Ledger} {seen env rest : List Column}
    {done readers : List (String × EntityReader)},
    Makes outer spec ledger seen stack → lowerFetches node fetches done stack = .ok readers after →
    (done.map Prod.fst).Nodup →
    env = seen ++ (EntityGraph.fetchedColumnsAt node fetches).map Prod.snd ++ rest →
    let ds := (EntityGraph.fetchedColumnsAt node fetches).map (Column.demand .first env)
    Makes outer (spec.addTables (EntityGraph.fetchedTables fetches)) (ledger.noteAll ds)
        (seen ++ (EntityGraph.fetchedColumnsAt node fetches).map Prod.snd) after ∧
      (done.map Prod.fst ++ fetches.map Prod.fst).Nodup ∧
      ∃ others, readers = done ++ others ∧
        EntityGraph.FetchesReadBy node fetches ((ledger.answers ds).map Selection.position) others
  | [], stack, after, spec, ledger, seen, env, rest, done, readers => by
    intro h hlower hdone henv
    simp only [lowerFetches, pure_eq_ok] at hlower
    obtain ⟨rfl, rfl⟩ := hlower
    refine ⟨?_, ?_, [], ?_, ?_⟩
    · simpa [EntityGraph.fetchedColumnsAt, EntityGraph.fetchedTables, QuerySpec.addTables] using h
    · simpa using hdone
    · simp
    · simp [EntityGraph.FetchesReadBy, EntityGraph.fetchedColumnsAt, Ledger.answers]
  | (name, graph) :: fetches, stack, after, spec, ledger, seen, env, rest, done, readers => by
    intro h hlower hdone henv
    simp only [lowerFetches, check_eq_ok, bind_eq_ok] at hlower
    obtain ⟨hnew, reader, middle, hgraph, hfetches⟩ := hlower
    rw [Option.isSome_eq_false_iff, Option.isNone_iff_eq_none] at hnew
    rw [Assoc.put_of_lookup_eq_none hnew] at hfetches
    have hname : name ∉ done.map Prod.fst := by
      rw [List.lookup_eq_none_iff] at hnew
      intro hmem
      obtain ⟨entry, hentry, rfl⟩ := List.mem_map.mp hmem
      simpa using hnew entry hentry
    have henv' : env = seen ++ (graph.columnsAt (node.fetch name)).map Prod.snd ++
        ((EntityGraph.fetchedColumnsAt node fetches).map Prod.snd ++ rest) := by
      simpa [EntityGraph.fetchedColumnsAt] using henv
    obtain ⟨hmiddle, hreader⟩ := makes_of_lowerEntity (node.fetch name) graph h hgraph henv'
    obtain ⟨hafter, hnodup, others, rfl, hothers⟩ :=
      makes_of_lowerFetches node fetches hmiddle hfetches
        (by simpa using List.nodup_append.mpr ⟨hdone, by simp, by grind⟩) (by simpa using henv')
    simp only [EntityGraph.fetchedColumnsAt, EntityGraph.fetchedTables, List.map_append,
      Ledger.noteAll_append, Ledger.answers_append]
    refine ⟨?_, ?_, (name, reader) :: others, by simp, ?_⟩
    · simpa using hafter
    · simpa using hnodup
    · rw [EntityGraph.FetchesReadBy]
      exact ⟨_, _, _, _, rfl, rfl, hreader, hothers⟩
  termination_by structural fetches => fetches

end

mutual

/-- A block that is lowered leaves the blocks around it as they were. -/
theorem lowersTo_of_lowerBlock (config : Config) (flat : Bool) : ∀ (query : Query)
    {stack after : Stack} {seen : List Column} {lowered : Lowered},
    stack.Knows seen → lowerBlock config flat query stack = .ok lowered after →
    after = stack ∧ query.LowersTo flat seen lowered
  | ⟨selections, tables⟩, stack, after, seen, lowered => by
    intro h hlower
    simp only [lowerBlock, check_eq_ok, bind_eq_ok, modify_eq_ok, onStack_eq_ok,
      modifyGet_eq_ok] at hlower
    obtain ⟨-, -, -, rfl, readers, middle, hclause, part, outer, hpop, hresult⟩ := hlower
    obtain ⟨inside, last, previous, hinside, hitems, rfl⟩ :=
      (Makes.push h tables flat).withClause hclause
    cases readers with
    | error failure => cases hresult
    | ok readers =>
      rw [attempt_eq_ok] at hitems
      obtain ⟨hlast, hreaders⟩ := makes_of_lowerItems config selections hinside hitems
      rw [(hlast.setClause previous).pop, Prod.mk.injEq] at hpop
      obtain ⟨rfl, rfl⟩ := hpop
      simp only [pure_eq_ok] at hresult
      obtain ⟨rfl, rfl⟩ := hresult
      refine ⟨rfl, ?_, hreaders⟩
      rw [QuerySpec.addTables_ofTables]
      rfl
  termination_by structural query => query

/-- Lowering a thing that a query selects makes its demands, in order. -/
theorem makes_of_lowerItem (config : Config) : ∀ (item : QueryItem) {outer stack after : Stack}
    {spec : QuerySpec} {ledger : Ledger} {seen : List Column} {reader : Reader},
    Makes outer spec ledger seen stack → lowerItem config item stack = .ok reader after →
    let ds := item.demands .first seen
    Makes outer (spec.addTables item.tables) (ledger.noteAll ds) (seen ++ item.columns) after ∧
      item.ReadBy seen ((ledger.answers ds).map Selection.position) reader
  | .scalar e type label, outer, stack, after, spec, ledger, seen, reader => by
    intro h hlower
    simp only [lowerItem, bind_eq_ok, onStack_eq_ok, pure_eq_ok] at hlower
    obtain ⟨item, last, hselect, rfl, rfl⟩ := hlower
    obtain ⟨rfl, hlast⟩ := h.select ⟨e, type, none⟩ hselect
    refine ⟨?_, _, rfl, rfl⟩
    simpa [QueryItem.tables, QueryItem.columns, QueryItem.demands] using hlast
  | .entity graph, outer, stack, after, spec, ledger, seen, reader => by
    intro h hlower
    simp only [lowerItem, bind_eq_ok, pure_eq_ok] at hlower
    obtain ⟨entityReader, last, hentity, rfl, rfl⟩ := hlower
    have hcolumns : seen ++ graph.columns =
        seen ++ (graph.columnsAt graph.rootNode).map Prod.snd ++ [] := by
      rw [EntityGraph.columns, List.append_nil]
    obtain ⟨hlast, hreader⟩ := makes_of_lowerEntity graph.rootNode graph h hentity hcolumns
    exact ⟨hlast, entityReader, rfl, hreader⟩
  | .subquery query label, outer, stack, after, spec, ledger, seen, reader => by
    intro h hlower
    simp only [lowerItem, bind_eq_ok, check_eq_ok, onStack_eq_ok, pure_eq_ok] at hlower
    obtain ⟨lowered, middle, hblock, hcount, first, _, htake, item, last, hselect, rfl, rfl⟩ :=
      hlower
    obtain ⟨rfl, hlowered⟩ :=
      lowersTo_of_lowerBlock config config.shareSubquerySelections query h.knows hblock
    obtain ⟨only, honly, hfirst⟩ := exists_selectionAt_zero hcount
    rw [hfirst] at htake
    obtain ⟨rfl, rfl⟩ := EStateM.Result.ok.inj htake
    obtain ⟨hspec, htype⟩ := hlowered.block_of_selections_eq honly
    rw [hspec, htype] at hselect
    rw [htype]
    obtain ⟨rfl, hlast⟩ := h.select ⟨_, _, _⟩ hselect
    refine ⟨?_, _, rfl, rfl⟩
    rw [show seen ++ (QueryItem.subquery query label).columns = seen from List.append_nil seen]
    exact hlast
  termination_by structural item => item

/-- Lowering what a query selects makes the demands of each thing, one after the other. -/
theorem makes_of_lowerItems (config : Config) : ∀ (items : List QueryItem)
    {outer stack after : Stack} {spec : QuerySpec} {ledger : Ledger} {seen : List Column}
    {readers : List Reader},
    Makes outer spec ledger seen stack → lowerItems config items stack = .ok readers after →
    let ds := QueryItem.demandsAll .first seen items
    Makes outer (spec.addTables (items.flatMap QueryItem.tables)) (ledger.noteAll ds)
        (seen ++ items.flatMap QueryItem.columns) after ∧
      QueryItem.AllReadBy seen items ((ledger.answers ds).map Selection.position) readers
  | [], outer, stack, after, spec, ledger, seen, readers => by
    intro h hlower
    simp only [lowerItems, pure_eq_ok] at hlower
    obtain ⟨rfl, rfl⟩ := hlower
    simpa [QueryItem.demandsAll, QueryItem.AllReadBy, Ledger.answers] using h
  | item :: rest, outer, stack, after, spec, ledger, seen, readers => by
    intro h hlower
    simp only [lowerItems, bind_eq_ok, pure_eq_ok] at hlower
    obtain ⟨reader, middle, hitem, others, last, hrest, rfl, rfl⟩ := hlower
    obtain ⟨hmiddle, hreader⟩ := makes_of_lowerItem config item h hitem
    obtain ⟨hlast, hreaders⟩ := makes_of_lowerItems config rest hmiddle hrest
    simp only [QueryItem.demandsAll, List.map_append, Ledger.noteAll_append, Ledger.answers_append]
    exact ⟨by simpa using hlast, _, _, _, _, rfl, rfl, hreader, hreaders⟩
  termination_by structural items => items

end

end Lowering

/-- What lowering gives for a query is the query, with nothing asked for before. -/
theorem Query.lowersTo_of_lower {config : Config} {query : Query} {lowered : Lowered}
    (h : lower config query = .ok lowered) :
    query.LowersTo config.shareSelections [] lowered := by
  obtain ⟨after, hblock⟩ :
      ∃ after, Lowering.attempt (Lowering.lowerBlock config config.shareSelections query) [] =
        (.ok lowered, after) :=
    ⟨_, Prod.ext h rfl⟩
  rw [Lowering.attempt_eq_ok] at hblock
  exact (Lowering.lowersTo_of_lowerBlock config _ query Stack.knows_nil hblock).2

end ObjectSelect
