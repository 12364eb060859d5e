import ObjectSelect.Assoc
import ObjectSelect.Fault
import ObjectSelect.Path
import ObjectSelect.Value

/-!
# Readers

A reader gives back one selected thing from a row of values: a single value by its position, or an
object whose attributes are read by position and whose fetched objects have readers of their own.
Reading stops at the first position that the row does not have or whose value is not of the type
expected there, attributes before fetches.
-/

set_option autoImplicit false
set_option relaxedAutoImplicit false

namespace ObjectSelect

/-- A place in a row and the type expected there. -/
structure Cell where
  position : Nat
  type : ValueType
  deriving DecidableEq

/-- Reads a place of a row. -/
def Cell.read (row : Row) (cell : Cell) : Except Fault Value :=
  match row[cell.position]? with
  | none => .error (.rowTooShort cell.position row.length)
  | some value =>
    if cell.type.accepts value then .ok value
    else .error (.typeMismatch cell.position cell.type.name)

/-- A reader of objects: attributes and fetched objects by name, each name once. -/
structure EntityReader where
  path : Path
  attributes : List (String × Cell)
  fetches : List (String × EntityReader)

namespace EntityReader

/-- Adds the attributes of an object to its members. -/
def readAttributes (row : Row) :
    List (String × Cell) → List (String × Value) → Except Fault (List (String × Value))
  | [], members => .ok members
  | (name, cell) :: rest, members => do
    let value ← cell.read row
    readAttributes row rest (Value.insertMember name value members)

mutual

/-- Reads an object. A fetched object takes the place of an attribute of the same name. -/
def read (row : Row) : EntityReader → Except Fault Value
  | ⟨_, attributes, fetches⟩ => do
    let members ← readAttributes row attributes []
    let members ← readFetches row fetches members
    return .object members
  termination_by structural reader => reader

/-- Adds the fetched objects to the members of the object that fetches them. -/
def readFetches (row : Row) :
    List (String × EntityReader) → List (String × Value) → Except Fault (List (String × Value))
  | [], members => .ok members
  | (name, reader) :: rest, members => do
    let value ← reader.read row
    readFetches row rest (Value.insertMember name value members)
  termination_by structural fetches => fetches

end

mutual

/-- The positions that a reader reads, in its order. -/
def positions : EntityReader → List Nat
  | ⟨_, attributes, fetches⟩ =>
    attributes.map (fun (_, cell) ↦ cell.position) ++ fetchPositions fetches
  termination_by structural reader => reader

/-- The positions that fetched readers read. -/
def fetchPositions : List (String × EntityReader) → List Nat
  | [] => []
  | (_, reader) :: rest => reader.positions ++ fetchPositions rest
  termination_by structural fetches => fetches

end

/-- Whether two attribute lists map the same names to the same cells, in any order. -/
def sameAttributes (xs ys : List (String × Cell)) : Bool :=
  xs.length == ys.length && xs.all fun (name, cell) ↦ ys.lookup name == some cell

mutual

/-- Whether two readers read the same object; the order of names does not matter. -/
def same : EntityReader → EntityReader → Bool
  | ⟨path, attributes, fetches⟩, other =>
    path == other.path && sameAttributes attributes other.attributes
      && fetches.length == other.fetches.length && coveredBy fetches other.fetches
  termination_by structural reader => reader

/-- Whether each fetched reader has the same one under its name among `others`. -/
def coveredBy : List (String × EntityReader) → List (String × EntityReader) → Bool
  | [], _ => true
  | (name, reader) :: rest, others =>
    (match others.lookup name with
      | some other => reader.same other
      | none => false) && coveredBy rest others
  termination_by structural fetches => fetches

end

instance : BEq EntityReader := ⟨same⟩

end EntityReader

/-- A reader of one selected thing. -/
inductive Reader where
  | basic (cell : Cell) (label : Option String)
  | entity (reader : EntityReader)

namespace Reader

/-- Reads one selected thing from a row. -/
def read (row : Row) : Reader → Except Fault Value
  | basic cell _ => cell.read row
  | entity reader => reader.read row

/-- Whether two readers read the same thing. -/
def same : Reader → Reader → Bool
  | basic cell label, basic cell' label' => cell == cell' && label == label'
  | entity reader, entity reader' => reader == reader'
  | _, _ => false

instance : BEq Reader := ⟨same⟩

end Reader

end ObjectSelect
