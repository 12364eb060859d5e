import ObjectSelect.Assoc
import ObjectSelect.Expr.Numbering
import ObjectSelect.Expr.Same
import ObjectSelect.FetchNode

/-!
# Selection caches

A block remembers which selection it made for an expression, per scope. A cache has no table until
the first request; that request fixes whether there is one table for the block or one for each fetch
root, and a request of the other kind is a violation. `ready` makes the table of a scope, `find?`
and `put` read and write it.

A `Request` does all three in turn and a `Reply` reports what it saw.
-/

set_option autoImplicit false
set_option relaxedAutoImplicit false

namespace ObjectSelect

/-- The selections made for expressions. -/
abbrev SelectionTable := List (Expr × Selection)

/-- The selections of a block that can be shared. -/
inductive SelectionCache where
  | unused
  | flat (table : SelectionTable)
  | perRoot (tables : List (Path × SelectionTable))

namespace SelectionCache

/-- Makes the table of a scope if it is not there. -/
def ready : Scope → SelectionCache → Except Violation SelectionCache
  | .off, cache => .ok cache
  | .flat, unused => .ok (flat [])
  | .flat, flat table => .ok (flat table)
  | .flat, perRoot _ => .error .flatOnScoped
  | .fetchRoot root, unused => .ok (perRoot [(root, [])])
  | .fetchRoot root, perRoot tables =>
    if (tables.lookup root).isSome then .ok (perRoot tables)
    else .ok (perRoot (tables ++ [(root, [])]))
  | .fetchRoot _, flat _ => .error .scopedOnFlat

/-- The table of a scope, if there is one. -/
def table? : Scope → SelectionCache → Option SelectionTable
  | .flat, flat table => some table
  | .fetchRoot root, perRoot tables => tables.lookup root
  | _, _ => none

/-- The selection remembered for an expression in a scope. -/
def find? (scope : Scope) (e : Expr) (cache : SelectionCache) : Option Selection :=
  (cache.table? scope).bind (·.lookup e)

/-- Remembers a selection for an expression in a scope; nothing is remembered without a scope. -/
def put (scope : Scope) (e : Expr) (item : Selection) : SelectionCache → SelectionCache
  | unused => unused
  | flat table =>
    match scope with
    | .flat => flat (Assoc.put e item table)
    | _ => flat table
  | perRoot tables =>
    match scope with
    | .fetchRoot root =>
      perRoot (Assoc.put root (Assoc.put e item ((tables.lookup root).getD [])) tables)
    | _ => perRoot tables

/-- Whether a table was ever made. -/
def isInitialized : SelectionCache → Bool
  | unused => false
  | _ => true

/-- The number of fetch roots with a table. -/
def rootCount : SelectionCache → Nat
  | perRoot tables => tables.length
  | _ => 0

/-- A use of the table of one scope: first look an expression up, then remember a selection at a
position for another. -/
structure Request where
  scope : Scope
  find : Option Expr
  put : Option (Expr × UInt64 × ValueType)

/-- What a request saw in the table: the selection found, the selection replaced, and the number of
selections afterwards. -/
structure Reply where
  found : Option Selection
  replaced : Option Selection
  size : Nat

/-- Answers a request. There is no reply without a table. If the selection to remember cannot be
made, the table has been made all the same. -/
def answer (request : Request) : EStateM Violation SelectionCache (Option Reply) := do
  match (← get).ready request.scope with
  | .error violation => throw violation
  | .ok cache => set cache
  let before ← get
  match before.table? request.scope with
  | none => return none
  | some _ =>
    let found := request.find.bind (before.find? request.scope ·)
    let replaced ← match request.put with
      | none => pure none
      | some (e, position, type) =>
        match e.selectAtWord (position + 1) position type with
        | .error violation => throw violation
        | .ok item =>
          set (before.put request.scope e item)
          pure (before.find? request.scope e)
    return some ⟨found, replaced, ((← get).table? request.scope).elim 0 List.length⟩

end SelectionCache

end ObjectSelect
