import ObjectSelect.Column
import ObjectSelect.Literal

/-!
# Expressions and select lists

Expressions, the selections of a select list and the query specifications that hold such a list are
one mutual family: a subquery is an expression. The `n`-th selection of a list, counted from zero,
is at position `n` of a row and has the ordinal `n + 1` in the SQL text.
-/

set_option autoImplicit false
set_option relaxedAutoImplicit false

namespace ObjectSelect

mutual

/-- An SQL expression. -/
inductive Expr where
  | column (reference : Column)
  | literal (value : Literal)
  /-- A parameter of the statement, counted from one. -/
  | parameter (index : Nat)
  | function (name : String) (arguments : List Expr)
  | subquery (spec : QuerySpec)

/-- An entry of a select list. -/
structure Selection where
  position : Nat
  ordinal : Nat
  expr : Expr
  type : ValueType

/-- A single query block: its select list and the tables that it reads. -/
structure QuerySpec where
  distinct : Bool
  selections : List Selection
  tables : List Table

end

/-- The type that an expression carries by itself, when it carries one; a subquery has the type of
its first selection. -/
def Expr.type? : Expr → Option ValueType
  | .column reference => some reference.type
  | .literal value => some value.type
  | .parameter _ => none
  | .function _ _ => none
  | .subquery spec => spec.selections.head?.map Selection.type

namespace QuerySpec

/-- The query specification over `tables` that selects nothing yet. -/
def ofTables (tables : List Table) : QuerySpec :=
  ⟨false, [], tables⟩

/-- The number of selections. -/
def count (spec : QuerySpec) : Nat :=
  spec.selections.length

/-- Adds a table at the end unless it is there already. -/
def addTable (table : Table) (spec : QuerySpec) : QuerySpec :=
  if table ∈ spec.tables then spec else { spec with tables := spec.tables ++ [table] }

end QuerySpec

end ObjectSelect
