import ObjectSelect.Expr.Same

/-!
# Query parts

A query part is a single query specification or a group of parts under one set operator.
-/

set_option autoImplicit false
set_option relaxedAutoImplicit false

namespace ObjectSelect

/-- A set operator between the parts of a group. -/
inductive SetOperator where
  | union
  | unionAll
  | intersect
  | except
  deriving DecidableEq

/-- The name of an operator. -/
def SetOperator.name : SetOperator → String
  | union => "Union"
  | unionAll => "UnionAll"
  | intersect => "Intersect"
  | except => "Except"

/-- A query specification, or parts that a set operator combines. -/
inductive QueryPart where
  | spec (spec : QuerySpec)
  | group (operator : SetOperator) (parts : List QueryPart)

namespace QueryPart

mutual

/-- Whether two parts are the same. -/
def same : QueryPart → QueryPart → Bool
  | .spec s, .spec t => s == t
  | .group o ps, .group o' qs => o == o' && sameAll ps qs
  | _, _ => false
  termination_by structural p => p

/-- Whether two lists hold the same parts in the same order. -/
def sameAll : List QueryPart → List QueryPart → Bool
  | [], [] => true
  | p :: ps, q :: qs => p.same q && sameAll ps qs
  | _, _ => false
  termination_by structural ps => ps

end

instance : BEq QueryPart := ⟨same⟩

/-- Whether the part is a single query specification. -/
def isSpec : QueryPart → Bool
  | .spec _ => true
  | .group _ _ => false

/-- The part as a query specification, if it is one. -/
def spec? : QueryPart → Option QuerySpec
  | .spec s => some s
  | .group _ _ => none

/-- The query specification reached by taking the first part of each group; `none` when that way
ends in a group without parts. -/
def firstSpec? : QueryPart → Option QuerySpec
  | .spec s => some s
  | .group _ [] => none
  | .group _ (part :: _) => part.firstSpec?

/-- Adds a table to a query specification that does not list it; a group stays as it is. -/
def addTable (table : Table) : QueryPart → QueryPart
  | .spec s => .spec (s.addTable table)
  | .group operator parts => .group operator parts

end QueryPart

end ObjectSelect
