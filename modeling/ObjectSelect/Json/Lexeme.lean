/-!
# Lexemes of JSON

The scanner reads one character a step. Its `Mode` says what it is inside of; a step gives the next
mode and the lexemes that the character ended or is. Between lexemes only blanks may stand. A number
ends at the first character that cannot go on with it, and that character is then read afresh.

A string is kept as its pieces, characters and escaped code units, because a code unit need not
stand for a character; `decode?` gives the text of pieces that do.
-/

set_option autoImplicit false
set_option relaxedAutoImplicit false

namespace ObjectSelect.Json

/-- A piece of a string: a character, or a code unit of 16 bits. -/
inductive Piece where
  | char (c : Char)
  | unit (value : Nat)

/-- A lexeme. The value of a number is not kept. -/
inductive Lexeme where
  | openBrace
  | closeBrace
  | openBracket
  | closeBracket
  | colon
  | comma
  | null
  | bool (value : Bool)
  | number
  | string (pieces : List Piece)

/-- How far a number has come. -/
inductive NumberPart where
  | sign
  | zero
  | whole
  | point
  | fraction
  | mark
  | markSign
  | exponent

namespace NumberPart

/-- How far a number has come after one more character; `none` if it cannot go on so. -/
def next? (part : NumberPart) (c : Char) : Option NumberPart :=
  match part with
  | sign => if c = '0' then some zero else if c.isDigit then some whole else none
  | zero => afterWhole c
  | whole => if c.isDigit then some whole else afterWhole c
  | point => if c.isDigit then some fraction else none
  | fraction => if c.isDigit then some fraction else afterFraction c
  | mark => if c = '+' ∨ c = '-' then some markSign else if c.isDigit then some exponent else none
  | markSign => if c.isDigit then some exponent else none
  | exponent => if c.isDigit then some exponent else none
where
  /-- A point or an exponent may follow the whole part. -/
  afterWhole (c : Char) : Option NumberPart :=
    if c = '.' then some point else afterFraction c
  /-- An exponent may follow the fraction. -/
  afterFraction (c : Char) : Option NumberPart :=
    if c = 'e' ∨ c = 'E' then some mark else none

/-- Whether a number may end here. -/
def isComplete : NumberPart → Bool
  | zero | whole | fraction | exponent => true
  | sign | point | mark | markSign => false

end NumberPart

/-- What the scanner is inside of. -/
inductive Mode where
  | between
  /-- A word of which `rest` has still to come. -/
  | word (rest : List Char) (lexeme : Lexeme)
  | number (part : NumberPart)
  /-- A string, with its pieces so far, last first. -/
  | string (pieces : List Piece)
  /-- A string after a backslash. -/
  | escape (pieces : List Piece)
  /-- A code unit of which `missing` digits have still to come. -/
  | unit (pieces : List Piece) (missing : Nat) (value : Nat)

/-- The value of a hexadecimal digit. -/
def hexValue? (c : Char) : Option Nat :=
  if c.isDigit then some (c.toNat - '0'.toNat)
  else if 'a' ≤ c ∧ c ≤ 'f' then some (c.toNat - 'a'.toNat + 10)
  else if 'A' ≤ c ∧ c ≤ 'F' then some (c.toNat - 'A'.toNat + 10)
  else none

/-- The character that a backslash and a letter stand for. -/
def escaped? : Char → Option Char
  | '"' => some '"'
  | '\\' => some '\\'
  | '/' => some '/'
  | 'b' => some '\x08'
  | 'f' => some '\x0c'
  | 'n' => some '\n'
  | 'r' => some '\r'
  | 't' => some '\t'
  | _ => none

namespace Mode

/-- Reads a character between lexemes. -/
def begin? : Char → Option (Mode × List Lexeme)
  | ' ' | '\n' | '\t' | '\r' => some (between, [])
  | '\x7b' => some (between, [.openBrace])
  | '\x7d' => some (between, [.closeBrace])
  | '[' => some (between, [.openBracket])
  | ']' => some (between, [.closeBracket])
  | ':' => some (between, [.colon])
  | ',' => some (between, [.comma])
  | '"' => some (string [], [])
  | 'n' => some (word ['u', 'l', 'l'] .null, [])
  | 't' => some (word ['r', 'u', 'e'] (.bool true), [])
  | 'f' => some (word ['a', 'l', 's', 'e'] (.bool false), [])
  | '-' => some (number .sign, [])
  | '0' => some (number .zero, [])
  | c => if c.isDigit then some (number .whole, []) else none

/-- Reads a character; `none` if it cannot stand here. -/
def step? : Mode → Char → Option (Mode × List Lexeme)
  | between, c => begin? c
  | word [] _, _ => none
  | word [last] lexeme, c => if c = last then some (between, [lexeme]) else none
  | word (next :: rest) lexeme, c => if c = next then some (word rest lexeme, []) else none
  | number part, c =>
    match part.next? c with
    | some further => some (number further, [])
    | none =>
      if part.isComplete then (begin? c).map fun (mode, found) ↦ (mode, .number :: found) else none
  | string pieces, c =>
    if c = '"' then some (between, [.string pieces.reverse])
    else if c = '\\' then some (escape pieces, [])
    else if c < ' ' then none
    else some (string (.char c :: pieces), [])
  | escape pieces, c =>
    if c = 'u' then some (unit pieces 4 0, [])
    else (escaped? c).map fun meant ↦ (string (.char meant :: pieces), [])
  | unit pieces missing value, c =>
    (hexValue? c).map fun digit ↦
      if missing ≤ 1 then (string (.unit (16 * value + digit) :: pieces), [])
      else (unit pieces (missing - 1) (16 * value + digit), [])

/-- The lexemes that the end of the text ends; `none` inside of a lexeme. -/
def finish? : Mode → Option (List Lexeme)
  | between => some []
  | number part => if part.isComplete then some [.number] else none
  | _ => none

/-- The lexemes of a text from a mode on. -/
def scan? : Mode → List Char → Option (List Lexeme)
  | mode, [] => mode.finish?
  | mode, c :: rest => do
    let (next, found) ← mode.step? c
    let further ← next.scan? rest
    return found ++ further

end Mode

/-- Whether a code unit is the first half of a character beyond the 16-bit range. -/
def isHighHalf (unit : Nat) : Bool :=
  0xd800 ≤ unit && unit < 0xdc00

/-- Whether a code unit is the second half of a character beyond the 16-bit range. -/
def isLowHalf (unit : Nat) : Bool :=
  0xdc00 ≤ unit && unit < 0xe000

/-- The characters of pieces; `high` is a first half that waits for its second half. There are none
where a half stands alone. -/
def decodeFrom? : Option Nat → List Piece → Option (List Char)
  | none, [] => some []
  | none, .char c :: rest => (decodeFrom? none rest).map (c :: ·)
  | none, .unit unit :: rest =>
    if isHighHalf unit then decodeFrom? (some unit) rest
    else if isLowHalf unit then none
    else (decodeFrom? none rest).map (Char.ofNat unit :: ·)
  | some high, .unit unit :: rest =>
    if isLowHalf unit then
      (decodeFrom? none rest).map
        (Char.ofNat (0x10000 + (high - 0xd800) * 0x400 + (unit - 0xdc00)) :: ·)
    else none
  | some _, _ => none

/-- The text of a string's pieces, if they all stand for characters. -/
def decode? (pieces : List Piece) : Option String :=
  (decodeFrom? none pieces).map String.ofList

end ObjectSelect.Json
