import ObjectSelect.Column
import ObjectSelect.Json.Basic

/-!
# JSON forms of types and tables

A type is written as its name; it is also read from an object whose only member has that name and is
null. A table is a record and needs both of its fields.
-/

set_option autoImplicit false
set_option relaxedAutoImplicit false

namespace ObjectSelect

namespace ValueType

/-- The type that a JSON value stands for. -/
def ofJson? : Json → Option ValueType
  | .string pieces => (Json.decode? pieces).bind ofName?
  | .object [(written, .null)] => (Json.decode? written).bind ofName?
  | _ => none

/-- The type that a JSON text stands for. -/
def ofJsonText? (text : String) : Option ValueType :=
  (Json.ofText? text).bind ofJson?

/-- The JSON text of a type. -/
def toJsonText (ty : ValueType) : String :=
  Json.quoted ty.name

end ValueType

namespace Table

/-- The fields of a table, in order. -/
def fieldNames : List String :=
  ["table_expression", "identification_variable"]

/-- The table that a JSON value stands for. -/
def ofJson? (json : Json) : Option Table :=
  match json.fields? fieldNames with
  | some [some expression, some correlation] => do
    return ⟨← expression.string?, ← correlation.string?⟩
  | _ => none

/-- The table that a JSON text stands for. -/
def ofJsonText? (text : String) : Option Table :=
  (Json.ofText? text).bind ofJson?

/-- The JSON text of a table. -/
def toJsonText (table : Table) : String :=
  "\x7b\"table_expression\":" ++ Json.quoted table.expression
    ++ ",\"identification_variable\":" ++ Json.quoted table.correlation ++ "\x7d"

end Table

end ObjectSelect
