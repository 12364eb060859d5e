import ObjectSelect.Query
import ObjectSelect.Reader
import ObjectSelect.Stack.Basic

/-!
# Lowering queries to select lists

`lower` turns a query over objects into one select list and a reader for each thing selected. Every
block, the top one and each subquery's, is made in a frame of its own, which is there only while the
block is made. Selections are taken in order. An entity puts its table into the block's `from` list,
selects its attributes and then its fetched entities; a subquery becomes one selection of the
enclosing block.

A query can be at fault, and a step can break a contract of the stack; `Failure` keeps the two
apart.
-/

set_option autoImplicit false
set_option relaxedAutoImplicit false

namespace ObjectSelect

/-- Why a query is not lowered: it is at fault, or lowering broke a contract. -/
inductive Failure where
  | fault (fault : Fault)
  | violation (violation : Violation)
  deriving DecidableEq

/-- A lowered query: a select list and the readers for its rows. -/
structure Lowered where
  spec : QuerySpec
  readers : List Reader

/-- Reads all that the query selects from a row. -/
def Lowered.readRow (lowered : Lowered) (row : Row) : Except Fault (List Value) :=
  lowered.readers.mapM (Reader.read row)

namespace Lowering

/-- A step of lowering, on the stack of the blocks being made. -/
abbrev Step := EStateM Failure Stack

/-- Stops with a fault of the query. -/
def refuse {α : Type} (fault : Fault) : Step α :=
  throw (.fault fault)

/-- A step on the stack as a step of lowering. -/
def onStack {α : Type} (step : EStateM Violation Stack α) : Step α :=
  EStateM.adaptExcept .violation step

/-- A step as a function that always gives a result, which may be a failure. -/
def attempt {α : Type} (step : Step α) (stack : Stack) : Except Failure α × Stack :=
  match step stack with
  | .ok result after => (.ok result, after)
  | .error failure after => (.error failure, after)

/-- The selection at an index of a select list. Only an index of the list may be asked for. -/
def selectionAt (index : Nat) (spec : QuerySpec) : Step Selection :=
  match spec.selections[index]? with
  | some item => return item
  | none => throw (.violation (.outOfBounds index spec.count))

/-- Selects attributes of an entity for the node that it is read at. -/
def lowerAttributes (graph : EntityGraph) (node : FetchNode) :
    List Attribute → List (String × Cell) → Step (List (String × Cell))
  | [], cells => return cells
  | attr :: rest, cells => do
    let fresh := Expr.column (attr.column graph.table.correlation)
    let (e, _) ← onStack (Stack.column (graph.columnKey attr) fresh)
    let item ← onStack (Stack.select e attr.type (some node))
    lowerAttributes graph node rest (Assoc.put attr.name ⟨item.position, attr.type⟩ cells)

mutual

/-- Lowers an entity that is read at `node`. -/
def lowerEntity (node : FetchNode) : EntityGraph → Step EntityReader
  | graph@⟨_, _, table, attributes, fetches⟩ => do
    if attributes.isEmpty then
      refuse (.emptyEntityGraph node.path.render)
    modify (Stack.mapCurrent fun frame ↦ { frame with part := frame.part.addTable table })
    let cells ← lowerAttributes graph node attributes []
    let readers ← lowerFetches node fetches []
    return ⟨node.path, cells, readers⟩
  termination_by structural graph => graph

/-- Lowers the associations fetched at `node`; `done` holds those before. An association that was
fetched already is refused before it is looked into. -/
def lowerFetches (node : FetchNode) :
    List (String × EntityGraph) → List (String × EntityReader) → Step (List (String × EntityReader))
  | [], done => return done
  | (name, graph) :: rest, done => do
    if (done.lookup name).isSome then
      refuse (.duplicateFetch (node.fetch name).path.render)
    let reader ← lowerEntity (node.fetch name) graph
    lowerFetches node rest (Assoc.put name reader done)
  termination_by structural fetches => fetches

end

mutual

/-- Lowers a query to a block of its own, which shares selections throughout if `flat` is set. -/
def lowerBlock (config : Config) (flat : Bool) : Query → Step Lowered
  | ⟨selections, tables⟩ => do
    if selections.isEmpty then
      refuse .emptySelection
    modify (Stack.push (.spec (.ofTables tables)) flat)
    let readers ← onStack (Stack.withClause .select (attempt (lowerItems config selections)))
    let part ← modifyGet Stack.pop
    match readers, part with
    | .error failure, _ => throw failure
    | .ok readers, some (.spec spec) => return ⟨spec, readers⟩
    | .ok _, _ => throw (.violation .blockLost)
  termination_by structural query => query

/-- Lowers one thing that a query selects. -/
def lowerItem (config : Config) : QueryItem → Step Reader
  | .scalar e type label => do
    let item ← onStack (Stack.select e type none)
    return .basic ⟨item.position, type⟩ label
  | .entity graph => do
    let reader ← lowerEntity (.root (.root graph.entity graph.label)) graph
    return .entity reader
  | .subquery query label => do
    let lowered ← lowerBlock config config.shareSubquerySelections query
    if lowered.spec.count != 1 then
      refuse (.subqueryArity 1 lowered.spec.count)
    let only ← selectionAt 0 lowered.spec
    let item ← onStack (Stack.select (.subquery lowered.spec) only.type none)
    return .basic ⟨item.position, only.type⟩ label
  termination_by structural item => item

/-- Lowers what a query selects, in order. -/
def lowerItems (config : Config) : List QueryItem → Step (List Reader)
  | [] => return []
  | item :: rest => do
    let reader ← lowerItem config item
    let readers ← lowerItems config rest
    return reader :: readers
  termination_by structural items => items

end

end Lowering

/-- Lowers a query. -/
def lower (config : Config) (query : Query) : Except Failure Lowered :=
  (Lowering.attempt (Lowering.lowerBlock config config.shareSelections query) []).1

end ObjectSelect
