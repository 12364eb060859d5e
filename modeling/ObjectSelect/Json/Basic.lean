import ObjectSelect.Json.Lexeme

/-!
# JSON texts

`Json.ofText?` reads a text that is one JSON value. The lexemes are taken one by one by a machine
with a stack: a `Layer` is an array or an object that is still open, and a `State` says what may
come next. Depth is not limited.

`Json.quoted` writes a string between double quotes. Quotes, backslashes and control characters are
escaped, by a letter where there is one; all other characters stand as they are.
-/

set_option autoImplicit false
set_option relaxedAutoImplicit false

namespace ObjectSelect

/-- A JSON value. The names of an object's members are kept as they were written. -/
inductive Json where
  | null
  | bool (value : Bool)
  | number
  | string (pieces : List Json.Piece)
  | array (items : List Json)
  | object (members : List (List Json.Piece × Json))

namespace Json

/-- An open array or object around the place that is read, with what it holds so far, last first. -/
inductive Layer where
  | array (items : List Json)
  | object (members : List (List Piece × Json)) (name : List Piece)

/-- What may come next, and the open layers, innermost first. -/
inductive State where
  | value (layers : List Layer)
  | firstItem (layers : List Layer)
  | firstName (layers : List Layer)
  | name (members : List (List Piece × Json)) (layers : List Layer)
  | colon (members : List (List Piece × Json)) (name : List Piece) (layers : List Layer)
  /-- A value is complete. -/
  | after (json : Json) (layers : List Layer)

namespace State

/-- Begins a value. -/
def begin? (layers : List Layer) : Lexeme → Option State
  | .null => some (after .null layers)
  | .bool b => some (after (.bool b) layers)
  | .number => some (after .number layers)
  | .string pieces => some (after (.string pieces) layers)
  | .openBracket => some (firstItem layers)
  | .openBrace => some (firstName layers)
  | _ => none

/-- Takes a lexeme; `none` if it cannot stand here. -/
def step? : State → Lexeme → Option State
  | value layers, lexeme => begin? layers lexeme
  | firstItem layers, .closeBracket => some (after (.array []) layers)
  | firstItem layers, lexeme => begin? (.array [] :: layers) lexeme
  | firstName layers, .closeBrace => some (after (.object []) layers)
  | firstName layers, .string pieces => some (colon [] pieces layers)
  | name members layers, .string pieces => some (colon members pieces layers)
  | colon members written layers, .colon => some (value (.object members written :: layers))
  | after json (.array items :: layers), .comma => some (value (.array (json :: items) :: layers))
  | after json (.array items :: layers), .closeBracket =>
    some (after (.array (json :: items).reverse) layers)
  | after json (.object members written :: layers), .comma =>
    some (name ((written, json) :: members) layers)
  | after json (.object members written :: layers), .closeBrace =>
    some (after (.object ((written, json) :: members).reverse) layers)
  | _, _ => none

/-- The value, if it is complete and nothing is open. -/
def result? : State → Option Json
  | after json [] => some json
  | _ => none

end State

/-- The JSON value that a text is. -/
def ofText? (text : String) : Option Json := do
  let lexemes ← Mode.between.scan? text.toList
  let state ← lexemes.foldlM State.step? (.value [])
  state.result?

/-- The text of a string. -/
def string? : Json → Option String
  | string pieces => decode? pieces
  | _ => none

/-- A truth value. -/
def bool? : Json → Option Bool
  | bool value => some value
  | _ => none

/-- The members of an object with their names decoded. -/
def decodeMembers? : List (List Piece × Json) → Option (List (String × Json))
  | [] => some []
  | (written, json) :: rest => do
    let name ← decode? written
    let members ← decodeMembers? rest
    return (name, json) :: members

/-- What a record gives for each of its fields, if it gives anything. An object gives fields by
name, each at most once, and may have other members; an array gives them in order and may end
early. -/
def fields? (names : List String) : Json → Option (List (Option Json))
  | array items =>
    if items.length ≤ names.length then
      some (items.map some ++ List.replicate (names.length - items.length) none)
    else none
  | object written => do
    let members ← decodeMembers? written
    if names.all fun name ↦ members.countP (·.1 == name) ≤ 1 then
      return names.map (members.lookup ·)
    else none
  | _ => none

/-- A hexadecimal digit. -/
def hexDigit (n : Nat) : Char :=
  Char.ofNat (if n < 10 then '0'.toNat + n else 'a'.toNat + (n - 10))

/-- A character inside a written string. -/
def escapeChar (c : Char) : List Char :=
  match c with
  | '"' => ['\\', '"']
  | '\\' => ['\\', '\\']
  | '\x08' => ['\\', 'b']
  | '\x0c' => ['\\', 'f']
  | '\n' => ['\\', 'n']
  | '\r' => ['\\', 'r']
  | '\t' => ['\\', 't']
  | c =>
    if c < ' ' then ['\\', 'u', '0', '0', hexDigit (c.toNat / 16), hexDigit (c.toNat % 16)] else [c]

/-- A written string. -/
def quoted (text : String) : String :=
  String.ofList ('"' :: text.toList.flatMap escapeChar ++ ['"'])

end Json

end ObjectSelect
