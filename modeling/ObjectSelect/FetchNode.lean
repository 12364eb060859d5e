import ObjectSelect.Path

/-!
# Fetch trees and scopes of sharing

An entity that is read is the root of a fetch tree; each association fetched with it is a child.
A node knows its path. Nodes are compared by their paths alone.

Selections of one block may share a position when they ask for the same expression in the same
scope. Either the whole block is one scope, or each fetch tree is a scope of its own, named by the
path of its root. A selection without scope shares with none.
-/

set_option autoImplicit false
set_option relaxedAutoImplicit false

namespace ObjectSelect

/-- A node of a fetch tree. -/
inductive FetchNode where
  | root (path : Path)
  | fetch (parent : FetchNode) (segment : String)

namespace FetchNode

/-- The path of a node. -/
def path : FetchNode → Path
  | root path => path
  | fetch parent segment => parent.path.append segment

/-- The node above, if there is one. -/
def parent? : FetchNode → Option FetchNode
  | root _ => none
  | fetch parent _ => some parent

/-- The path of the topmost node of the tree. -/
def rootPath : FetchNode → Path
  | root path => path
  | fetch parent _ => parent.rootPath

/-- The number of nodes above. -/
def depth : FetchNode → Nat
  | root _ => 0
  | fetch parent _ => parent.depth + 1

instance : BEq FetchNode := ⟨fun a b ↦ a.path == b.path⟩

/-- The node with its kind, for diagnostics. -/
def describe (node : FetchNode) : String :=
  "FetchParent(" ++ node.path.render ++ ")"

end FetchNode

/-- Where a selection looks for an equal one. -/
inductive Scope where
  /-- Among all selections of the block. -/
  | flat
  /-- Among the selections of the fetch trees with this root path. -/
  | fetchRoot (path : Path)
  /-- Nowhere. -/
  | off
  deriving DecidableEq

/-- The scope of a selection in a block that shares throughout if `flat` is set and within fetch
trees otherwise. -/
def Scope.of (flat : Bool) (node : Option FetchNode) : Scope :=
  if flat then .flat
  else match node with
    | some node => .fetchRoot node.rootPath
    | none => .off

end ObjectSelect
