import ObjectSelect.Stack.Basic

/-!
# Runs of a stack

A `Stack.Step` is one operation on a stack as data, so a run is a list of steps. Each step answers
and leaves a stack, also when it breaks a contract: the answer is then the violation, and the run
goes on from the stack as the step left it. The steps inside `withClause` are answered one by one
together with the stack after each.
-/

set_option autoImplicit false
set_option relaxedAutoImplicit false

namespace ObjectSelect.Stack

/-- An operation on a stack. -/
inductive Step where
  | push (part : QueryPart) (flat : Bool)
  | pop
  | select (e : Expr) (type : ValueType) (node : Option FetchNode)
  | column (key : ColumnKey) (fresh : Expr)
  | currentColumn (key : ColumnKey) (fresh : Expr)
  | findColumn (key : ColumnKey)
  | withClause (clause : Clause) (body : List Step)
  | setClause (clause : Clause)
  | setPart (part : QueryPart)
  | append (e : Expr) (type : ValueType)
  | inspect

/-- What a step answers. -/
inductive Answer where
  | done
  | part (part : Option QueryPart)
  | selection (item : Selection)
  | column (e : Expr) (isNew : Bool)
  | columns (current enclosing : Option Expr)
  | run (answers : List (Answer × Stack))
  | clause (previous : Clause)
  | position (position : Option Nat)
  | violated (violation : Violation)

namespace Step

/-- The answer of a step that may break a contract. -/
def conclude {α : Type} (answer : α → Answer) : EStateM.Result Violation Stack α → Answer × Stack
  | .ok result after => (answer result, after)
  | .error violation after => (.violated violation, after)

mutual

/-- Takes a step. -/
def run : Step → Stack → Answer × Stack
  | push part flat, stack => (.done, stack.push part flat)
  | pop, stack => (.part stack.pop.1, stack.pop.2)
  | select e type node, stack => conclude .selection (Stack.select e type node stack)
  | column key fresh, stack =>
    conclude (fun (e, isNew) ↦ .column e isNew) (Stack.column key fresh stack)
  | currentColumn key fresh, stack =>
    conclude (fun (e, isNew) ↦ .column e isNew) (Stack.currentColumn key fresh stack)
  | findColumn key, stack =>
    (.columns (stack.current?.bind (Frame.column? key)) (stack.enclosing?.bind (Frame.column? key)),
      stack)
  | withClause clause body, stack =>
    conclude .run (Stack.withClause clause (runAll body) stack)
  | setClause clause, stack =>
    conclude .clause
      (onCurrent (fun frame ↦ .ok frame.clause { frame with clause := clause }) stack)
  | setPart part, stack =>
    conclude (fun _ ↦ .done) (onCurrent (fun frame ↦ .ok () { frame with part := part }) stack)
  | append e type, stack =>
    conclude .position (onCurrent (Frame.appendUncached e type) stack)
  | inspect, stack => (.part (stack.current?.map Frame.part), stack)
  termination_by structural step => step

/-- Takes steps one after the other and gives each answer with the stack after it. -/
def runAll : List Step → Stack → List (Answer × Stack) × Stack
  | [], stack => ([], stack)
  | step :: rest, stack =>
    let (answer, after) := step.run stack
    let (answers, last) := runAll rest after
    ((answer, after) :: answers, last)
  termination_by structural steps => steps

end

end Step

end ObjectSelect.Stack
