import ObjectSelect.Expr.Basic

/-!
# Queries and settings

What a caller asks for: scalars, entities with their attributes and fetched associations, and the
single values of nested queries.

The settings say how far selections share positions, in the top block and in the blocks of
subqueries. A block that is set to share does so throughout; otherwise only the selections of one
fetch tree share.
-/

set_option autoImplicit false
set_option relaxedAutoImplicit false

namespace ObjectSelect

/-- How an attribute of an entity is read from the entity's table. -/
structure Attribute where
  name : String
  text : String
  type : ValueType
  isFormula : Bool
  deriving DecidableEq

/-- An entity, the table that holds it, and the associations to fetch with it. -/
structure EntityGraph where
  entity : String
  label : Option String
  table : Table
  attributes : List Attribute
  fetches : List (String × EntityGraph)

namespace Attribute

/-- The column of an attribute in a table with the given correlation name. -/
def column (attr : Attribute) (correlation : String) : Column :=
  ⟨correlation, attr.text, attr.isFormula, attr.type⟩

end Attribute

/-- The key under which a block remembers an attribute's expression. -/
def EntityGraph.columnKey (graph : EntityGraph) (attr : Attribute) : ColumnKey :=
  (attr.column graph.table.correlation).key

mutual

/-- A query: what it selects, and the tables that its block names itself. -/
structure Query where
  selections : List QueryItem
  tables : List Table

/-- A thing that a query selects. -/
inductive QueryItem where
  | scalar (e : Expr) (type : ValueType) (label : Option String)
  | entity (graph : EntityGraph)
  | subquery (query : Query) (label : Option String)

end

/-- The settings of lowering. Sharing is on unless it is turned off. -/
structure Config where
  shareSelections : Bool := true
  shareSubquerySelections : Bool := true
  deriving DecidableEq

namespace Config

/-- Every block shares throughout. -/
def flat : Config := {}

/-- Every block shares within fetch trees only. -/
def fetchScoped : Config :=
  ⟨false, false⟩

end Config

end ObjectSelect
