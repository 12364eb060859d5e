import ObjectSelect.Expr.Basic

/-!
# SQL text of expressions and query blocks

Arguments, selections and tables are joined by commas. A selection is written as its expression; its
position and type show only in the diagnostic form.
-/

set_option autoImplicit false
set_option relaxedAutoImplicit false

namespace ObjectSelect

/-- The `from` part of a block, absent when there are no tables. -/
def Table.renderFrom : List Table → String
  | [] => ""
  | tables => " from " ++ ",".intercalate (tables.map Table.render)

mutual

/-- The SQL text of an expression. -/
def Expr.render : Expr → String
  | .column reference => reference.render
  | .literal value => value.render
  | .parameter _ => "?"
  | .function name arguments => name ++ "(" ++ ",".intercalate (Expr.renderAll arguments) ++ ")"
  | .subquery spec => "(" ++ spec.render ++ ")"
  termination_by structural e => e

/-- The SQL texts of a list of expressions. -/
def Expr.renderAll : List Expr → List String
  | [] => []
  | e :: rest => e.render :: Expr.renderAll rest
  termination_by structural es => es

/-- The SQL text of a selection. -/
def Selection.render : Selection → String
  | ⟨_, _, e, _⟩ => e.render
  termination_by structural s => s

/-- The SQL texts of a select list. -/
def Selection.renderAll : List Selection → List String
  | [] => []
  | s :: rest => s.render :: Selection.renderAll rest
  termination_by structural ss => ss

/-- The SQL text of a query block. -/
def QuerySpec.render : QuerySpec → String
  | ⟨distinct, selections, tables⟩ =>
    "select " ++ (if distinct then "distinct " else "")
      ++ ",".intercalate (Selection.renderAll selections) ++ Table.renderFrom tables
  termination_by structural s => s

end

/-- The expression with its kind, for diagnostics. -/
def Expr.describe : Expr → String
  | .column reference => reference.describe
  | .literal value => "Literal(" ++ value.describe ++ ")"
  | .parameter index => "Parameter(" ++ toString index ++ ")"
  | .function name arguments => "Function(" ++ (Expr.function name arguments).render ++ ")"
  | .subquery spec => "Subquery" ++ (Expr.subquery spec).render

/-- The selection with its position and type, for diagnostics. -/
def Selection.describe (s : Selection) : String :=
  "SelectionItem[" ++ toString s.position ++ "](" ++ s.expr.describe ++ ": " ++ s.type.name ++ ")"

end ObjectSelect
