/-!
# Faults and contract violations

What can be wrong with a query, a row or a setting, and the message for each.

A violation is a mistake of the caller and not a property of the query: select lists, selection
caches and stacks of blocks can be misused. The step that meets a violation stops, and the state
stays as it was at that moment.
-/

set_option autoImplicit false
set_option relaxedAutoImplicit false

namespace ObjectSelect

/-- A fault of the input, with what its message needs. -/
inductive Fault where
  | emptySelection
  | emptyEntityGraph (path : String)
  | duplicateFetch (path : String)
  | subqueryArity (expected got : Nat)
  | rowTooShort (position length : Nat)
  | typeMismatch (position : Nat) (expected : String)
  | config (detail : String)
  | io (detail : String)
  deriving DecidableEq

/-- The message of a fault. -/
def Fault.message : Fault → String
  | emptySelection => "query has no selections"
  | emptyEntityGraph path => "entity graph '" ++ path ++ "' maps no attributes"
  | duplicateFetch path => "association '" ++ path ++ "' is fetched more than once"
  | subqueryArity expected got =>
    "subquery must select " ++ toString expected ++ " value(s), got " ++ toString got
  | rowTooShort position length =>
    "row has " ++ toString length ++ " value(s), cannot read position " ++ toString position
  | typeMismatch position expected =>
    "value at position " ++ toString position ++ " is not a " ++ expected
  | config detail => "invalid lowering config: " ++ detail
  | io detail => "io error: " ++ detail

/-- A broken contract. -/
inductive Violation where
  /-- No ordinal follows the last position that a machine word can hold. -/
  | ordinalOverflow
  /-- A selection was to get an ordinal that does not follow its position. -/
  | ordinalMismatch (ordinal expected : Nat)
  /-- A selection was added at a position other than the end of the list. -/
  | outOfOrder (position count : Nat)
  /-- A selection was to be registered with a group of query parts. -/
  | notASpec
  /-- There is no block to work in. -/
  | noBlock
  /-- A cache with a table per fetch root was asked for its one table. -/
  | flatOnScoped
  /-- A cache with one table was asked for the table of a fetch root. -/
  | scopedOnFlat
  /-- A block ended without the query specification it was started with. -/
  | blockLost
  /-- A selection was taken at an index that the list does not have. -/
  | outOfBounds (index count : Nat)
  deriving DecidableEq

namespace Violation

/-- A failed comparison of two numbers; `detail` says what was compared. -/
def comparison (detail : String) (left right : Nat) : String :=
  "assertion `left == right` failed" ++ detail
    ++ "\n  left: " ++ toString left ++ "\n right: " ++ toString right

/-- The message of a violation. -/
def message : Violation → String
  | ordinalOverflow => "attempt to add with overflow"
  | ordinalMismatch ordinal expected => comparison "" ordinal expected
  | outOfOrder position count =>
    comparison ": selection item registered out of order" position count
  | notASpec => "selections can only be registered against a query spec"
  | noBlock => "no query part is being processed"
  | flatOnScoped => "flat deduplication requested on a fetch-scoped selection cache"
  | scopedOnFlat => "fetch-root deduplication requested on a flat selection cache"
  | blockLost => "a block ended without its query spec"
  | outOfBounds index count =>
    "index out of bounds: the len is " ++ toString count ++ " but the index is " ++ toString index

end Violation

end ObjectSelect
