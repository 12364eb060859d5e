import ObjectSelect.Expr.Basic

/-!
# Equality of expressions

Two expressions are the same when they are built alike from the same columns, literals, parameters,
function names and query specifications. Literals are compared as constants, so the relation is
coarser than equality of terms only in the sign of a zero.
-/

set_option autoImplicit false
set_option relaxedAutoImplicit false

namespace ObjectSelect

mutual

/-- Whether two expressions are the same. -/
def Expr.same : Expr → Expr → Bool
  | .column c, .column d => c == d
  | .literal v, .literal w => v == w
  | .parameter m, .parameter n => m == n
  | .function f as, .function g bs => f == g && Expr.sameAll as bs
  | .subquery s, .subquery t => s.same t
  | _, _ => false
  termination_by structural e => e

/-- Whether two lists hold the same expressions in the same order. -/
def Expr.sameAll : List Expr → List Expr → Bool
  | [], [] => true
  | a :: as, b :: bs => a.same b && Expr.sameAll as bs
  | _, _ => false
  termination_by structural es => es

/-- Whether two selections agree in position, ordinal, expression and type. -/
def Selection.same : Selection → Selection → Bool
  | ⟨p, o, e, ty⟩, ⟨p', o', e', ty'⟩ => p == p' && o == o' && e.same e' && ty == ty'
  termination_by structural s => s

/-- Whether two lists hold the same selections in the same order. -/
def Selection.sameAll : List Selection → List Selection → Bool
  | [], [] => true
  | a :: as, b :: bs => a.same b && Selection.sameAll as bs
  | _, _ => false
  termination_by structural ss => ss

/-- Whether two query specifications select the same from the same tables. -/
def QuerySpec.same : QuerySpec → QuerySpec → Bool
  | ⟨d, ss, ts⟩, ⟨d', ss', ts'⟩ => d == d' && Selection.sameAll ss ss' && ts == ts'
  termination_by structural s => s

end

instance : BEq Expr := ⟨Expr.same⟩

instance : BEq Selection := ⟨Selection.same⟩

instance : BEq QuerySpec := ⟨QuerySpec.same⟩

end ObjectSelect
