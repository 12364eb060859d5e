/-!
# Paths through an entity graph

A path starts at an entity of the query, told apart from other uses of the same entity by an
optional label, and follows associations from there.
-/

set_option autoImplicit false
set_option relaxedAutoImplicit false

namespace ObjectSelect

/-- An entity of the query and the associations followed from it. -/
structure Path where
  entity : String
  label : Option String
  segments : List String
  deriving DecidableEq

namespace Path

/-- The path of an entity itself. -/
def root (entity : String) (label : Option String) : Path :=
  ⟨entity, label, []⟩

/-- The path that follows one more association. -/
def append (p : Path) (segment : String) : Path :=
  { p with segments := p.segments ++ [segment] }

/-- Whether the path follows no association. -/
def isRoot (p : Path) : Bool :=
  p.segments.isEmpty

/-- The path without its last association; a root has no parent. -/
def parent? (p : Path) : Option Path :=
  if p.segments.isEmpty then none else some { p with segments := p.segments.dropLast }

/-- The paths above a path, nearest first. -/
def ancestors (p : Path) : List Path :=
  (List.range p.segments.length).reverse.map fun n ↦ { p with segments := p.segments.take n }

/-- The last association, or the entity of a root. -/
def localName (p : Path) : String :=
  p.segments.getLast?.getD p.entity

/-- The text of a path. -/
def render (p : Path) : String :=
  p.entity ++ (match p.label with
    | some label => "(" ++ label ++ ")"
    | none => "") ++ String.join (p.segments.map fun segment ↦ "." ++ segment)

/-- The path with its kind, for diagnostics. -/
def describe (p : Path) : String :=
  "NavigablePath(" ++ p.render ++ ")"

theorem render_append (p : Path) (segment : String) :
    (p.append segment).render = p.render ++ "." ++ segment := by
  simp [append, render, String.append_assoc]

@[simp]
theorem parent?_append (p : Path) (segment : String) : (p.append segment).parent? = some p := by
  simp [parent?, append]

end Path

end ObjectSelect
