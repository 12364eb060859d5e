import ObjectSelect.Decimal.Double

/-!
# Row values and their types

The values that a row holds and that readers give back. The members of an object are kept in the
order of their names, each name once; `Value.insertMember` keeps this order, and a later value of a
name takes the place of the earlier one.

Columns, selections and readers carry a type, and `ValueType.accepts` says which row values can be
read at it. Null is a value of every type.
-/

set_option autoImplicit false
set_option relaxedAutoImplicit false

namespace ObjectSelect

/-- A value of a row, or an object assembled from one. -/
inductive Value where
  | null
  | bool (value : Bool)
  | int (value : Int)
  | float (value : Double)
  | string (text : String)
  | array (items : List Value)
  | object (members : List (String × Value))

namespace Value

/-- Gives `name` the value `value` among members in the order of their names. -/
def insertMember (name : String) (value : Value) : List (String × Value) → List (String × Value)
  | [] => [(name, value)]
  | (other, held) :: rest =>
    if name = other then (name, value) :: rest
    else if name < other then (name, value) :: (other, held) :: rest
    else (other, held) :: insertMember name value rest

end Value

/-- The values that a statement yields at once, by position. -/
abbrev Row := List Value

/-- The type of a column or of a selected value. -/
inductive ValueType where
  | null
  | bool
  | int
  | float
  | string
  | date
  | timestamp
  | uuid
  | binary
  deriving DecidableEq

namespace ValueType

/-- The name of a type, in messages and in JSON. -/
def name : ValueType → String
  | null => "Null"
  | bool => "Bool"
  | int => "Int"
  | float => "Float"
  | string => "String"
  | date => "Date"
  | timestamp => "Timestamp"
  | uuid => "Uuid"
  | binary => "Binary"

/-- All types, in the order of their declaration. -/
def all : List ValueType :=
  [null, bool, int, float, string, date, timestamp, uuid, binary]

/-- The type of a given name. -/
def ofName? (name : String) : Option ValueType :=
  all.find? fun ty ↦ ty.name == name

@[simp]
theorem ofName?_name (ty : ValueType) : ofName? ty.name = some ty := by
  cases ty <;> rfl

/-- Whether a row value can be read at a type: dates, timestamps and identifiers travel as strings,
binary data as arrays, and a whole number is also a float. -/
def accepts : ValueType → Value → Bool
  | _, .null => true
  | bool, .bool _ => true
  | int, .int _ => true
  | float, .int _ => true
  | float, .float _ => true
  | string, .string _ => true
  | date, .string _ => true
  | timestamp, .string _ => true
  | uuid, .string _ => true
  | binary, .array _ => true
  | _, _ => false

@[simp]
theorem accepts_null (ty : ValueType) : ty.accepts .null = true := by
  cases ty <;> rfl

end ValueType

end ObjectSelect
