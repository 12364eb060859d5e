import ObjectSelect.Frame

/-!
# Stacks of frames

The blocks being made, innermost first: a subquery is made while its enclosing block waits below it.
Selections go to the innermost frame only. A column's expression is looked for from the innermost
frame outwards, so a subquery uses the expression of an enclosing block, and a new one is remembered
in the innermost frame.
-/

set_option autoImplicit false
set_option relaxedAutoImplicit false

namespace ObjectSelect

/-- The frames being made, innermost first. -/
abbrev Stack := List Frame

namespace Stack

/-- Starts a frame inside all others. -/
def push (part : QueryPart) (flat : Bool) (stack : Stack) : Stack :=
  Frame.start part flat :: stack

/-- Ends the innermost frame and gives its part. -/
def pop : Stack → Option QueryPart × Stack
  | [] => (none, [])
  | frame :: outer => (some frame.part, outer)

/-- The innermost frame. -/
def current? (stack : Stack) : Option Frame :=
  stack.head?

/-- The frame just outside the innermost one. -/
def enclosing? (stack : Stack) : Option Frame :=
  stack[1]?

/-- The clause of the innermost frame. -/
def clause (stack : Stack) : Clause :=
  stack.current?.elim .irrelevant Frame.clause

/-- Changes the innermost frame, if there is one. -/
def mapCurrent (change : Frame → Frame) : Stack → Stack
  | [] => []
  | frame :: outer => change frame :: outer

/-- Takes a step on the innermost frame; without frames there is nothing to step on. -/
def onCurrent {α : Type} (step : EStateM Violation Frame α) : EStateM Violation Stack α
  | [] => .error .noBlock []
  | frame :: outer =>
    match step frame with
    | .ok result after => .ok result (after :: outer)
    | .error violation after => .error violation (after :: outer)

/-- The selection for an expression in the innermost frame. -/
def select (e : Expr) (type : ValueType) (node : Option FetchNode) :
    EStateM Violation Stack Selection :=
  onCurrent (Frame.select e type node)

/-- The expression for a column in the innermost frame alone, and whether it is new. -/
def currentColumn (key : ColumnKey) (fresh : Expr) : EStateM Violation Stack (Expr × Bool) :=
  onCurrent fun frame ↦
    let (answer, after) := frame.column key fresh
    .ok answer after

/-- The expression that the innermost frame with the column remembers for it. -/
def column? (key : ColumnKey) (stack : Stack) : Option Expr :=
  stack.findSome? (Frame.column? key)

/-- The expression for a column in any frame, and whether it is new. -/
def column (key : ColumnKey) (fresh : Expr) : EStateM Violation Stack (Expr × Bool) :=
  fun stack ↦
    match stack.column? key with
    | some held => .ok (held, false) stack
    | none => currentColumn key fresh stack

/-- Runs `body` with the innermost frame in a clause. Afterwards the frame that is innermost then
gets the clause that was set aside. -/
def withClause {α : Type} (clause : Clause) (body : Stack → α × Stack) :
    EStateM Violation Stack α
  | [] => .error .noBlock []
  | frame :: outer =>
    let (result, after) := body ({ frame with clause := clause } :: outer)
    .ok result (after.mapCurrent fun innermost ↦ { innermost with clause := frame.clause })

end Stack

end ObjectSelect
