import ObjectSelect.Value

/-!
# Tables and columns

A table of a `from` list has a correlation name, by which the columns of the block refer to it. A
reference reads a column of the table that its qualifier stands for, or evaluates a formula over
that table. `Column.key` names what is referred to and forgets both the type and whether the text is
a formula.

A formula names its own table by the word `alias` in braces. `Text.fill` puts a qualifier in every
such place, from left to right; the qualifier's own text is not searched again.
-/

set_option autoImplicit false
set_option relaxedAutoImplicit false

namespace ObjectSelect

/-- An entry of a `from` list. -/
structure Table where
  expression : String
  correlation : String
  deriving DecidableEq

/-- The SQL text of an entry. -/
def Table.render (t : Table) : String :=
  t.expression ++ " " ++ t.correlation

namespace Text

/-- The characters of a formula with `qualifier` in each placeholder. -/
def fillChars (qualifier : List Char) : List Char → List Char
  | [] => []
  | '\x7b' :: 'a' :: 'l' :: 'i' :: 'a' :: 's' :: '\x7d' :: rest =>
    qualifier ++ fillChars qualifier rest
  | c :: rest => c :: fillChars qualifier rest

/-- The formula with `qualifier` in each placeholder. -/
def fill (qualifier formula : String) : String :=
  String.ofList (fillChars qualifier.toList formula.toList)

end Text

/-- The name under which a block remembers a column expression. -/
structure ColumnKey where
  correlation : String
  text : String
  deriving DecidableEq

/-- A reference to a column, or to a formula over a table's columns. -/
structure Column where
  qualifier : String
  text : String
  isFormula : Bool
  type : ValueType
  deriving DecidableEq

namespace Column

/-- The key of a reference. -/
def key (c : Column) : ColumnKey :=
  ⟨c.qualifier, c.text⟩

/-- The SQL text: a qualified name, or the formula with the qualifier filled in. -/
def render (c : Column) : String :=
  if c.isFormula then Text.fill c.qualifier c.text else c.qualifier ++ "." ++ c.text

/-- The reference with its kind, for diagnostics. -/
def describe (c : Column) : String :=
  (if c.isFormula then "Formula(" else "Column(") ++ c.render ++ ")"

end Column

end ObjectSelect
