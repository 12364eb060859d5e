import ObjectSelect.QueryPart
import ObjectSelect.SelectionCache

/-!
# Frames

A frame is a query part in the making together with what is remembered while it is made: the
selections that can be shared, the expressions of its columns, and the clause being worked on.

`Frame.select` answers a request for an expression from the cache or registers a new selection, and
`Frame.column` answers a request for a column's expression.
-/

set_option autoImplicit false
set_option relaxedAutoImplicit false

namespace ObjectSelect

/-- A clause of a block; `irrelevant` when no clause is worked on. -/
inductive Clause where
  | select
  | tables
  | condition
  | groupBy
  | having
  | orderBy
  | offset
  | fetch
  | irrelevant
  deriving DecidableEq

/-- The name of a clause. -/
def Clause.name : Clause → String
  | select => "Select"
  | tables => "From"
  | condition => "Where"
  | groupBy => "GroupBy"
  | having => "Having"
  | orderBy => "OrderBy"
  | offset => "Offset"
  | fetch => "Fetch"
  | irrelevant => "Irrelevant"

/-- A query part in the making. -/
structure Frame where
  part : QueryPart
  /-- Whether all selections of the part share, and not only those of one fetch tree. -/
  flat : Bool
  cache : SelectionCache
  columns : List (ColumnKey × Expr)
  clause : Clause

namespace Frame

/-- A frame that remembers nothing yet. -/
def start (part : QueryPart) (flat : Bool) : Frame :=
  ⟨part, flat, .unused, [], .irrelevant⟩

/-- Makes the table of a scope in the frame's cache. -/
def prepare (scope : Scope) : EStateM Violation Frame Unit := fun frame ↦
  match frame.cache.ready scope with
  | .ok cache => .ok () { frame with cache := cache }
  | .error violation => .error violation frame

/-- Adds a selection at the end of the frame's select list. -/
def register (e : Expr) (type : ValueType) : EStateM Violation Frame Selection := fun frame ↦
  match frame.part with
  | .group _ _ => .error .notASpec frame
  | .spec spec =>
    match spec.append e type with
    | .ok (item, extended) => .ok item { frame with part := .spec extended }
    | .error violation => .error violation frame

/-- The selection for an expression: one of the same scope if it is there, else a new one, which is
then remembered. A selection that is found keeps the type it was made with. -/
def select (e : Expr) (type : ValueType) (node : Option FetchNode) :
    EStateM Violation Frame Selection := do
  let scope := Scope.of (← get).flat node
  prepare scope
  match (← get).cache.find? scope e with
  | some held => return held
  | none =>
    let item ← register e type
    modify fun frame ↦ { frame with cache := frame.cache.put scope e item }
    return item

/-- The expression remembered for a column. -/
def column? (key : ColumnKey) (frame : Frame) : Option Expr :=
  frame.columns.lookup key

/-- The expression for a column, and whether it is new: what is remembered under the key, else
`fresh`, which is then remembered. -/
def column (key : ColumnKey) (fresh : Expr) (frame : Frame) : (Expr × Bool) × Frame :=
  match frame.column? key with
  | some held => ((held, false), frame)
  | none => ((fresh, true), { frame with columns := frame.columns ++ [(key, fresh)] })

/-- Selects an expression at the end of the query specification without asking the cache, and gives
its position. A group has no such place. -/
def appendUncached (e : Expr) (type : ValueType) : EStateM Violation Frame (Option Nat) := do
  if (← get).part.isSpec then
    let item ← register e type
    return some item.position
  else
    return none

end Frame

end ObjectSelect
