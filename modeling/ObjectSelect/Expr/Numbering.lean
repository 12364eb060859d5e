import ObjectSelect.Expr.Basic
import ObjectSelect.Fault

/-!
# Numbering of select lists

A selection is made at a position together with the ordinal after it, and a select list takes a
selection only at its end. So the positions of a list built by `QuerySpec.append` are `0, 1, 2, …`
and every ordinal is one more than its position.
-/

set_option autoImplicit false
set_option relaxedAutoImplicit false

namespace ObjectSelect

/-- The selection of an expression at a position; the ordinal has to follow the position. -/
def Expr.selectAt (e : Expr) (ordinal position : Nat) (type : ValueType) :
    Except Violation Selection :=
  if ordinal = position + 1 then .ok ⟨position, ordinal, e, type⟩
  else .error (.ordinalMismatch ordinal (position + 1))

/-- The selection of an expression at a position given as a machine word. The last word has no
successor, so no ordinal follows it. -/
def Expr.selectAtWord (e : Expr) (ordinal position : UInt64) (type : ValueType) :
    Except Violation Selection :=
  if position.toNat + 1 = UInt64.size then .error .ordinalOverflow
  else e.selectAt ordinal.toNat position.toNat type

namespace QuerySpec

/-- Puts a selection at the end of the list, where its position has to be. -/
def add (item : Selection) (spec : QuerySpec) : Except Violation QuerySpec :=
  if item.position = spec.count then .ok { spec with selections := spec.selections ++ [item] }
  else .error (.outOfOrder item.position spec.count)

/-- Selects an expression at the end of the list. -/
def append (e : Expr) (type : ValueType) (spec : QuerySpec) :
    Except Violation (Selection × QuerySpec) := do
  let item ← e.selectAt (spec.count + 1) spec.count type
  let extended ← spec.add item
  return (item, extended)

/-- Appending never breaks the numbering. -/
theorem append_eq (e : Expr) (type : ValueType) (spec : QuerySpec) :
    spec.append e type =
      let item : Selection := ⟨spec.count, spec.count + 1, e, type⟩
      .ok (item, { spec with selections := spec.selections ++ [item] }) := by
  simp [append, Expr.selectAt, add, bind, Except.bind, pure, Except.pure]

end QuerySpec

end ObjectSelect
