import ObjectSelect.Decimal.Shortest
import ObjectSelect.Value

/-!
# Literals

Constant values of SQL expressions. Equality is structural except for floats, which are compared as
numbers, so the two zeros are equal.

SQL writes a text value between single quotes and a quote inside the text twice, so the first lone
quote ends the value. `Text.quoted` is the written form of a text; `Text.doubleQuotes` is what
stands between the outer quotes.
-/

set_option autoImplicit false
set_option relaxedAutoImplicit false

namespace ObjectSelect

namespace Text

/-- A text with each single quote written twice. -/
def doubleQuotes : List Char → List Char
  | [] => []
  | c :: rest => if c = '\'' then '\'' :: '\'' :: doubleQuotes rest else c :: doubleQuotes rest

/-- The SQL form of a text value. -/
def quoted (text : String) : String :=
  String.ofList ('\'' :: doubleQuotes text.toList ++ ['\''])

end Text

/-- A constant of the SQL text. A NaN is no literal. -/
inductive Literal where
  | string (text : String)
  | int (value : Int64)
  | float (value : Double)
  | bool (value : Bool)
  | null

namespace Literal

/-- Whether two literals are the same constant. -/
def same : Literal → Literal → Bool
  | string s, string t => s == t
  | int m, int n => m == n
  | float x, float y => x == y
  | bool b, bool c => b == c
  | null, null => true
  | _, _ => false

instance : BEq Literal := ⟨same⟩

/-- The float literal of a bit pattern; `none` for a NaN. -/
def ofFloatBits? (bits : UInt64) : Option Literal :=
  (Double.ofBits? bits).map float

/-- The type of a constant. -/
def type : Literal → ValueType
  | string _ => .string
  | int _ => .int
  | float _ => .float
  | bool _ => .bool
  | null => .null

/-- The SQL text of a constant. -/
def render : Literal → String
  | string text => Text.quoted text
  | int value => toString value.toInt
  | float value => value.render
  | bool true => "true"
  | bool false => "false"
  | null => "null"

/-- The constant with its kind, for diagnostics. -/
def describe : Literal → String
  | string text => "String(" ++ (string text).render ++ ")"
  | int value => "Int(" ++ (int value).render ++ ")"
  | float value => "Float(" ++ (float value).render ++ ")"
  | bool value => "Bool(" ++ (bool value).render ++ ")"
  | null => "Null"

end Literal

end ObjectSelect
