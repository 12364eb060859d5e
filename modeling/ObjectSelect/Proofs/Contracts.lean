import ObjectSelect.Proofs.StackSteps

/-!
# Lowering breaks no contract

A step on a stack can break a contract: there may be no frame, the innermost frame may hold a group
of parts, or its cache may have tables of the other kind. Lowering takes such steps only inside a
frame of its own. `Stack.Inside` says what holds there, for every query and on the way to a fault as
well as to a result: the innermost frame can select (`Frame.Selects`), and the frames around it are
the ones that lowering found.

`Lowering.EndsIn` speaks about the end of a step of lowering and rules a broken contract out. It is
shown for the steps in turn, and then by recursion on the query: what works inside a block ends
inside it, and a whole block ends with the stack that it started from.
-/

set_option autoImplicit false
set_option relaxedAutoImplicit false

namespace ObjectSelect

/-! ### Frames that can select -/

/-- A frame that can select: its part is a query specification, and its cache is of the kind that
its sharing asks for. -/
structure Frame.Selects (frame : Frame) : Prop where
  exists_spec : ∃ spec, frame.part = .spec spec
  fits : frame.cache.Fits frame.flat

namespace Frame

theorem selects_start (spec : QuerySpec) (flat : Bool) : (start (.spec spec) flat).Selects :=
  ⟨⟨spec, rfl⟩, trivial⟩

/-- A frame that can select does so, and can select again. -/
theorem Selects.select {frame : Frame} (h : frame.Selects) (e : Expr) (type : ValueType)
    (node : Option FetchNode) :
    ∃ item after, Frame.select e type node frame = .ok item after ∧ after.Selects := by
  obtain ⟨spec, hpart⟩ := h.exists_spec
  obtain ⟨cache, hready, hfits⟩ := SelectionCache.exists_ready h.fits node
  cases hfind : cache.find? (Scope.of frame.flat node) e with
  | some item => exact ⟨item, _, select_of_find hready hfind, ⟨spec, hpart⟩, hfits⟩
  | none =>
    exact ⟨_, _, select_of_not_find type hready hfind hpart, ⟨_, rfl⟩,
      SelectionCache.fits_put hfits _ _ _⟩

theorem Selects.addTable {frame : Frame} (h : frame.Selects) (table : Table) :
    Selects { frame with part := frame.part.addTable table } := by
  obtain ⟨spec, hpart⟩ := h.exists_spec
  exact ⟨⟨spec.addTable table, by rw [hpart, QueryPart.addTable]⟩, h.fits⟩

theorem Selects.setClause {frame : Frame} (h : frame.Selects) (clause : Clause) :
    Selects { frame with clause := clause } :=
  ⟨h.exists_spec, h.fits⟩

end Frame

namespace Stack

/-- The innermost frame can select, and the frames around it are `outer`. -/
def Inside (outer stack : Stack) : Prop :=
  ∃ frame : Frame, frame.Selects ∧ stack = frame :: outer

theorem inside_push (tables : List Table) (flat : Bool) (stack : Stack) :
    Inside stack (stack.push (.spec (.ofTables tables)) flat) :=
  ⟨_, Frame.selects_start _ flat, rfl⟩

variable {outer stack : Stack}

/-- A change of the innermost frame stays inside if the frame can still select. -/
theorem Inside.mapCurrent (h : Inside outer stack) {change : Frame → Frame}
    (hchange : ∀ frame : Frame, frame.Selects → (change frame).Selects) :
    Inside outer (stack.mapCurrent change) := by
  obtain ⟨frame, hframe, rfl⟩ := h
  exact ⟨change frame, hchange frame hframe, rfl⟩

theorem Inside.select (h : Inside outer stack) (e : Expr) (type : ValueType)
    (node : Option FetchNode) :
    ∃ item after, Stack.select e type node stack = .ok item after ∧ Inside outer after := by
  obtain ⟨frame, hframe, rfl⟩ := h
  obtain ⟨item, after, hselect, hafter⟩ := hframe.select e type node
  exact ⟨item, after :: outer, by simp only [Stack.select, onCurrent, hselect], after, hafter, rfl⟩

theorem Inside.column (h : Inside outer stack) (key : ColumnKey) (fresh : Expr) :
    ∃ answer after, Stack.column key fresh stack = .ok answer after ∧ Inside outer after := by
  cases hkey : Stack.column? key stack with
  | some held => exact ⟨(held, false), stack, by simp only [Stack.column, hkey], h⟩
  | none =>
    obtain ⟨frame, hframe, rfl⟩ := h
    have hafter : (frame.column key fresh).2.Selects := by
      unfold Frame.column
      split
      · exact hframe
      · exact ⟨hframe.exists_spec, hframe.fits⟩
    refine ⟨(frame.column key fresh).1, _, ?_, _, hafter, rfl⟩
    simp only [Stack.column, hkey, currentColumn, onCurrent]

/-- Work in a clause stays inside if the work itself does. -/
theorem Inside.withClause {α : Type} {good : α → Prop} {body : Stack → α × Stack}
    (h : Inside outer stack) (clause : Clause)
    (hbody : ∀ inside, Inside outer inside → good (body inside).1 ∧ Inside outer (body inside).2) :
    ∃ result after, Stack.withClause clause body stack = .ok result after ∧ good result ∧
      Inside outer after := by
  obtain ⟨frame, hframe, rfl⟩ := h
  obtain ⟨hgood, hafter⟩ := hbody ({ frame with clause := clause } :: outer)
    ⟨_, hframe.setClause clause, rfl⟩
  exact ⟨_, _, rfl, hgood, hafter.mapCurrent fun last hlast ↦ hlast.setClause frame.clause⟩

theorem Inside.pop (h : Inside outer stack) :
    ∃ spec, stack.pop = (some (.spec spec), outer) := by
  obtain ⟨frame, hframe, rfl⟩ := h
  obtain ⟨spec, hpart⟩ := hframe.exists_spec
  exact ⟨spec, by rw [Stack.pop, hpart]⟩

end Stack

namespace Lowering

open Stack

/-! ### How a step ends -/

section

variable {α β : Type} {p q : Stack → Prop} {outer stack : Stack}

/-- A step ends with a result or a fault, and with a stack that satisfies `p`. -/
def EndsIn (p : Stack → Prop) : EStateM.Result Failure Stack α → Prop
  | .ok _ after => p after
  | .error (.fault _) after => p after
  | .error (.violation _) _ => False

/-- The outcome is not that a contract was broken. -/
def Lawful (outcome : Except Failure α) : Prop :=
  ∀ violation, outcome ≠ .error (.violation violation)

theorem endsIn_pure (h : p stack) (result : α) : EndsIn p ((pure result : Step α) stack) :=
  h

theorem endsIn_refuse (h : p stack) (fault : Fault) : EndsIn p (refuse (α := α) fault stack) :=
  h

theorem EndsIn.imp {result : EStateM.Result Failure Stack α} (h : EndsIn p result)
    (himp : ∀ after, p after → q after) : EndsIn q result := by
  cases result with
  | ok a after => exact himp after h
  | error failure after =>
    cases failure with
    | fault fault => exact himp after h
    | violation violation => exact h

/-- Steps taken one after the other end as the second does, if it may start where the first ends. -/
theorem endsIn_bind {step : Step α} {next : α → Step β} (h : EndsIn p (step stack))
    (hnext : ∀ a middle, p middle → EndsIn p (next a middle)) :
    EndsIn p ((step >>= next) stack) := by
  simp only [bind, EStateM.bind]
  cases hstep : step stack with
  | ok a middle =>
    rw [hstep] at h
    exact hnext a middle h
  | error failure after =>
    rw [hstep] at h
    cases failure with
    | fault fault => exact h
    | violation violation => exact h

/-- A step that gives a result leaves the rest to the next one. -/
theorem endsIn_bind_of_eq_ok {step : Step α} {next : α → Step β} {a : α} {middle : Stack}
    (hstep : step stack = .ok a middle) (hnext : EndsIn p (next a middle)) :
    EndsIn p ((step >>= next) stack) := by
  simp only [bind, EStateM.bind, hstep]
  exact hnext

theorem endsIn_onStack {step : EStateM Violation Stack α}
    (h : ∃ result after, step stack = .ok result after ∧ p after) :
    EndsIn p (onStack step stack) := by
  obtain ⟨result, after, hstep, hafter⟩ := h
  simp only [onStack, EStateM.adaptExcept, hstep]
  exact hafter

theorem endsIn_check {condition : Bool} {fault : Fault} {step : Step α} (h : p stack)
    (hstep : condition = false → EndsIn p (step stack)) :
    EndsIn p ((if condition = true then refuse (α := PUnit) fault >>= fun _ ↦ step else step)
      stack) := by
  cases condition with
  | true => exact h
  | false => exact hstep rfl

theorem lawful_attempt {step : Step α} (h : EndsIn p (step stack)) :
    Lawful (attempt step stack).1 ∧ p (attempt step stack).2 := by
  unfold attempt
  cases hstep : step stack with
  | ok result after =>
    rw [hstep] at h
    exact ⟨fun _ ↦ nofun, h⟩
  | error failure after =>
    rw [hstep] at h
    cases failure with
    | fault fault => exact ⟨fun _ ↦ nofun, h⟩
    | violation violation => exact h.elim

end

/-! ### Entities, items and blocks -/

variable {outer stack : Stack}

theorem endsIn_lowerAttributes (graph : EntityGraph) (node : FetchNode)
    (attributes : List Attribute) (cells : List (String × Cell)) (h : Inside outer stack) :
    EndsIn (Inside outer) (lowerAttributes graph node attributes cells stack) := by
  induction attributes generalizing cells stack with
  | nil => exact endsIn_pure h cells
  | cons attr rest ih =>
    rw [lowerAttributes]
    refine endsIn_bind (endsIn_onStack (h.column _ _)) fun answer middle hmiddle ↦ ?_
    refine endsIn_bind (endsIn_onStack (hmiddle.select _ _ _)) fun item last hlast ↦ ?_
    exact ih _ hlast

mutual

theorem endsIn_lowerEntity (node : FetchNode) : ∀ (graph : EntityGraph) {stack : Stack},
    Inside outer stack → EndsIn (Inside outer) (lowerEntity node graph stack)
  | ⟨_, _, table, attributes, fetches⟩, stack => by
    intro h
    rw [lowerEntity]
    refine endsIn_check h fun _ ↦ ?_
    refine endsIn_bind_of_eq_ok rfl ?_
    have htable := h.mapCurrent fun frame hframe ↦ hframe.addTable table
    refine endsIn_bind (endsIn_lowerAttributes _ node attributes [] htable)
      fun cells middle hmiddle ↦ ?_
    refine endsIn_bind (endsIn_lowerFetches node fetches [] hmiddle) fun readers last hlast ↦ ?_
    exact endsIn_pure hlast _
  termination_by structural graph => graph

theorem endsIn_lowerFetches (node : FetchNode) : ∀ (fetches : List (String × EntityGraph))
    (done : List (String × EntityReader)) {stack : Stack}, Inside outer stack →
    EndsIn (Inside outer) (lowerFetches node fetches done stack)
  | [], done, stack => fun h ↦ endsIn_pure h done
  | (name, graph) :: rest, done, stack => by
    intro h
    rw [lowerFetches]
    refine endsIn_check h fun _ ↦ ?_
    refine endsIn_bind (endsIn_lowerEntity (node.fetch name) graph h) fun reader middle hmiddle ↦ ?_
    exact endsIn_lowerFetches node rest _ hmiddle
  termination_by structural fetches => fetches

end

mutual

/-- A block ends with the stack that it started from, whatever that is. -/
theorem endsIn_lowerBlock (config : Config) (flat : Bool) : ∀ (query : Query) (stack : Stack),
    EndsIn (· = stack) (lowerBlock config flat query stack)
  | ⟨selections, tables⟩, stack => by
    rw [lowerBlock]
    refine endsIn_check rfl fun _ ↦ ?_
    refine endsIn_bind_of_eq_ok rfl ?_
    obtain ⟨outcome, last, hclause, houtcome, hlast⟩ :=
      (inside_push tables flat stack).withClause .select fun inside hinside ↦
        lawful_attempt (endsIn_lowerItems config selections hinside)
    obtain ⟨spec, hpop⟩ := hlast.pop
    refine endsIn_bind_of_eq_ok ((onStack_eq_ok _ _).mpr hclause) ?_
    refine endsIn_bind_of_eq_ok ((modifyGet_eq_ok _ _).mpr hpop) ?_
    cases outcome with
    | ok readers => exact endsIn_pure (α := Lowered) rfl ⟨spec, readers⟩
    | error failure =>
      cases failure with
      | fault fault => exact endsIn_refuse (α := Lowered) rfl fault
      | violation violation => exact absurd rfl (houtcome violation)
  termination_by structural query => query

theorem endsIn_lowerItem (config : Config) : ∀ (item : QueryItem) {outer stack : Stack},
    Inside outer stack → EndsIn (Inside outer) (lowerItem config item stack)
  | .scalar e type label, outer, stack => by
    intro h
    rw [lowerItem]
    exact endsIn_bind (endsIn_onStack (h.select e type none))
      fun item last hlast ↦ endsIn_pure hlast _
  | .entity graph, outer, stack => by
    intro h
    rw [lowerItem]
    exact endsIn_bind (endsIn_lowerEntity _ graph h) fun reader last hlast ↦ endsIn_pure hlast _
  | .subquery query label, outer, stack => by
    intro h
    rw [lowerItem]
    have hblock := endsIn_lowerBlock config config.shareSubquerySelections query stack
    refine endsIn_bind (hblock.imp fun after hafter ↦ hafter ▸ h) fun lowered middle hmiddle ↦ ?_
    refine endsIn_check hmiddle fun hcount ↦ ?_
    obtain ⟨only, -, hfirst⟩ := exists_selectionAt_zero hcount
    refine endsIn_bind_of_eq_ok hfirst ?_
    exact endsIn_bind (endsIn_onStack (hmiddle.select _ _ none))
      fun item last hlast ↦ endsIn_pure hlast _
  termination_by structural item => item

theorem endsIn_lowerItems (config : Config) : ∀ (items : List QueryItem) {outer stack : Stack},
    Inside outer stack → EndsIn (Inside outer) (lowerItems config items stack)
  | [], outer, stack => fun h ↦ endsIn_pure h []
  | item :: rest, outer, stack => by
    intro h
    rw [lowerItems]
    refine endsIn_bind (endsIn_lowerItem config item h) fun reader middle hmiddle ↦ ?_
    exact endsIn_bind (endsIn_lowerItems config rest hmiddle)
      fun readers last hlast ↦ endsIn_pure hlast _
  termination_by structural items => items

end

end Lowering

/-- Whatever the settings and the query, lowering gives a lowered query or says what is wrong with
the query. It never asks for a frame that is not there, registers a selection with a group, mixes
the kinds of tables of a cache, breaks the numbering of a select list, takes a selection from a list
that does not have it or loses a block. -/
theorem lower_eq_ok_or_fault (config : Config) (query : Query) :
    (∃ lowered, lower config query = .ok lowered) ∨
      ∃ fault, lower config query = .error (.fault fault) := by
  obtain ⟨houtcome, -⟩ := Lowering.lawful_attempt
    (Lowering.endsIn_lowerBlock config config.shareSelections query [])
  unfold lower
  generalize (Lowering.attempt _ _).1 = outcome at houtcome ⊢
  cases outcome with
  | ok lowered => exact .inl ⟨lowered, rfl⟩
  | error failure =>
    cases failure with
    | fault fault => exact .inr ⟨fault, rfl⟩
    | violation violation => exact absurd rfl (houtcome violation)

end ObjectSelect
