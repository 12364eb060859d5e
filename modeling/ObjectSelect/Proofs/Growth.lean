import ObjectSelect.Proofs.Contracts

/-!
# What lowering leaves on the stack

A block is made in a frame of its own, and with that frame everything that was done for the block is
gone: whether the block is lowered or refused, the stack is the one that lowering found. What is
lowered inside a block touches the innermost frame only, and only adds to it: selections and tables
at the end of its query specification, entries to its cache and columns to those it remembers.

`Stack.Grows` says that a stack is another one with such additions, and `Lowering.Adds` that a step
of lowering leaves a stack like that behind, whatever its outcome. Steps taken one after the other
add what they add together (`Lowering.Adds.bind`), so the rest is recursion on what is lowered.
-/

set_option autoImplicit false
set_option relaxedAutoImplicit false

namespace ObjectSelect

/-! ### Additions -/

/-- A cache with all tables and entries of another one, and possibly more. -/
inductive SelectionCache.Grows : SelectionCache → SelectionCache → Prop
  | unused (after : SelectionCache) : Grows unused after
  | flat {table longer : SelectionTable} (h : table <+: longer) : Grows (flat table) (flat longer)
  | perRoot {tables others : List (Path × SelectionTable)}
    (h : ∀ root table, tables.lookup root = some table →
      ∃ longer, others.lookup root = some longer ∧ table <+: longer) :
    Grows (perRoot tables) (perRoot others)

/-- A part with selections and tables added at the end of its query specification. -/
inductive QueryPart.Grows : QueryPart → QueryPart → Prop
  | spec {distinct : Bool} {selections longer : List Selection} {tables others : List Table}
    (hselections : selections <+: longer) (htables : tables <+: others) :
    Grows (.spec ⟨distinct, selections, tables⟩) (.spec ⟨distinct, longer, others⟩)
  | group (operator : SetOperator) (parts : List QueryPart) :
    Grows (.group operator parts) (.group operator parts)

/-- A frame in which nothing changed but that something was added to its part, to its cache and to
the columns that it remembers. -/
structure Frame.Grows (frame after : Frame) : Prop where
  part : frame.part.Grows after.part
  flat_eq : after.flat = frame.flat
  cache : frame.cache.Grows after.cache
  columns : frame.columns <+: after.columns
  clause_eq : after.clause = frame.clause

/-- A stack in which nothing changed but that something was added to its innermost frame. -/
inductive Stack.Grows : Stack → Stack → Prop
  | empty : Grows [] []
  | innermost {frame after : Frame} (h : frame.Grows after) (outer : Stack) :
    Grows (frame :: outer) (after :: outer)

/-- The state that a step leaves behind, whatever its outcome. -/
def stateAfter {ε σ α : Type} : EStateM.Result ε σ α → σ
  | .ok _ after => after
  | .error _ after => after

namespace SelectionCache

theorem Grows.refl (cache : SelectionCache) : cache.Grows cache := by
  cases cache with
  | unused => exact .unused _
  | flat table => exact .flat List.prefix_rfl
  | perRoot tables => exact .perRoot fun root table h ↦ ⟨table, h, List.prefix_rfl⟩

theorem Grows.trans {first middle last : SelectionCache} (h : first.Grows middle)
    (h' : middle.Grows last) : first.Grows last := by
  cases h with
  | unused => exact .unused last
  | flat h =>
    cases h' with
    | flat h' => exact .flat (h.trans h')
  | perRoot h =>
    cases h' with
    | perRoot h' =>
      refine .perRoot fun root table htable ↦ ?_
      obtain ⟨longer, hlonger, hprefix⟩ := h root table htable
      obtain ⟨longest, hlongest, hprefix'⟩ := h' root longer hlonger
      exact ⟨longest, hlongest, hprefix.trans hprefix'⟩

/-- Making the table of a scope leaves the other tables as they are. -/
theorem grows_of_ready {scope : Scope} {cache after : SelectionCache}
    (hready : cache.ready scope = .ok after) : cache.Grows after := by
  cases ready_eq_ok_iff.mp hready with
  | off => exact .refl cache
  | held htable => exact .refl cache
  | flat => exact .unused _
  | first root => exact .unused _
  | another root tables hnew =>
    refine .perRoot fun other table htable ↦ ⟨table, ?_, List.prefix_rfl⟩
    rw [List.lookup_append, htable, Option.some_or]

/-- Remembering a selection for an expression that has none in the scope replaces nothing. -/
theorem grows_put {scope : Scope} {cache : SelectionCache} {e : Expr}
    (hnew : cache.find? scope e = none) (item : Selection) :
    cache.Grows (cache.put scope e item) := by
  cases cache with
  | unused => exact .unused _
  | flat table =>
    cases scope with
    | flat =>
      have hlookup : table.lookup e = none := hnew
      rw [put, Assoc.put_of_lookup_eq_none hlookup]
      exact .flat (List.prefix_append _ _)
    | fetchRoot root | off => exact .refl _
  | perRoot tables =>
    cases scope with
    | flat | off => exact .refl _
    | fetchRoot root =>
      refine .perRoot fun other table htable ↦ ?_
      rw [Assoc.lookup_put]
      by_cases hroot : other = root
      · subst hroot
        have hlookup : table.lookup e = none := by simpa [find?, table?, htable] using hnew
        refine ⟨table ++ [(e, item)], ?_, List.prefix_append _ _⟩
        simp [htable, Assoc.put_of_lookup_eq_none hlookup]
      · exact ⟨table, by simpa [hroot] using htable, List.prefix_rfl⟩

end SelectionCache

namespace QueryPart

theorem Grows.refl (part : QueryPart) : part.Grows part := by
  cases part with
  | spec spec =>
    obtain ⟨distinct, selections, tables⟩ := spec
    exact .spec List.prefix_rfl List.prefix_rfl
  | group operator parts => exact .group operator parts

theorem Grows.trans {first middle last : QueryPart} (h : first.Grows middle)
    (h' : middle.Grows last) : first.Grows last := by
  cases h with
  | spec hselections htables =>
    cases h' with
    | spec hselections' htables' =>
      exact .spec (hselections.trans hselections') (htables.trans htables')
  | group => exact h'

theorem grows_addTable (part : QueryPart) (table : Table) : part.Grows (part.addTable table) := by
  cases part with
  | spec spec =>
    obtain ⟨distinct, selections, tables⟩ := spec
    rw [addTable, QuerySpec.addTable]
    split
    · exact .refl _
    · exact .spec List.prefix_rfl (List.prefix_append _ _)
  | group operator parts => exact .group operator parts

end QueryPart

namespace Frame

theorem Grows.refl (frame : Frame) : frame.Grows frame :=
  ⟨.refl _, rfl, .refl _, List.prefix_rfl, rfl⟩

theorem Grows.trans {first middle last : Frame} (h : first.Grows middle) (h' : middle.Grows last) :
    first.Grows last where
  part := h.part.trans h'.part
  flat_eq := h'.flat_eq.trans h.flat_eq
  cache := h.cache.trans h'.cache
  columns := h.columns.trans h'.columns
  clause_eq := h'.clause_eq.trans h.clause_eq

theorem grows_addTable (frame : Frame) (table : Table) :
    frame.Grows { frame with part := frame.part.addTable table } :=
  ⟨frame.part.grows_addTable table, rfl, .refl _, List.prefix_rfl, rfl⟩

theorem grows_column (frame : Frame) (key : ColumnKey) (fresh : Expr) :
    frame.Grows (frame.column key fresh).2 := by
  rw [column]
  cases frame.column? key with
  | some held => exact .refl _
  | none => exact ⟨.refl _, rfl, .refl _, List.prefix_append _ _, rfl⟩

/-- Selecting adds at most a selection and an entry, also when no selection can be made. -/
theorem grows_select (e : Expr) (type : ValueType) (node : Option FetchNode) (frame : Frame) :
    frame.Grows (stateAfter (select e type node frame)) := by
  cases hready : frame.cache.ready (Scope.of frame.flat node) with
  | error violation =>
    rw [select_of_not_ready hready]
    exact .refl frame
  | ok cache =>
    have hcache := SelectionCache.grows_of_ready hready
    rw [select_of_ready hready]
    cases hfind : cache.find? (Scope.of frame.flat node) e with
    | some held => exact ⟨.refl _, rfl, hcache, List.prefix_rfl, rfl⟩
    | none =>
      cases hpart : frame.part with
      | group operator parts =>
        simp only [register]
        exact ⟨by rw [hpart]; exact .group operator parts, rfl, hcache, List.prefix_rfl, rfl⟩
      | spec spec =>
        obtain ⟨distinct, selections, tables⟩ := spec
        simp only [register, QuerySpec.append_eq]
        exact ⟨by rw [hpart]; exact .spec (List.prefix_append _ _) List.prefix_rfl, rfl,
          hcache.trans (SelectionCache.grows_put hfind _), List.prefix_rfl, rfl⟩

end Frame

namespace Stack

theorem Grows.refl (stack : Stack) : stack.Grows stack := by
  cases stack with
  | nil => exact .empty
  | cons frame outer => exact .innermost (.refl frame) outer

theorem Grows.trans {first middle last : Stack} (h : first.Grows middle) (h' : middle.Grows last) :
    first.Grows last := by
  cases h with
  | empty => exact h'
  | innermost h outer =>
    cases h' with
    | innermost h' => exact .innermost (h.trans h') outer

theorem grows_mapCurrent {change : Frame → Frame} (h : ∀ frame : Frame, frame.Grows (change frame))
    (stack : Stack) : stack.Grows (stack.mapCurrent change) := by
  cases stack with
  | nil => exact .empty
  | cons frame outer => exact .innermost (h frame) outer

/-- What a step on the innermost frame leaves behind, whatever its outcome. -/
theorem stateAfter_onCurrent {α : Type} (step : EStateM Violation Frame α) (stack : Stack) :
    stateAfter (onCurrent step stack) = stack.mapCurrent fun frame ↦ stateAfter (step frame) := by
  cases stack with
  | nil => rfl
  | cons frame outer =>
    rw [onCurrent, mapCurrent]
    cases step frame <;> rfl

/-- A step on the innermost frame that only adds to it does so on the stack. -/
theorem grows_onCurrent {α : Type} {step : EStateM Violation Frame α}
    (h : ∀ frame : Frame, frame.Grows (stateAfter (step frame))) (stack : Stack) :
    stack.Grows (stateAfter (onCurrent step stack)) := by
  rw [stateAfter_onCurrent]
  exact grows_mapCurrent h stack

theorem grows_select (e : Expr) (type : ValueType) (node : Option FetchNode) (stack : Stack) :
    stack.Grows (stateAfter (select e type node stack)) :=
  grows_onCurrent (Frame.grows_select e type node) stack

theorem grows_column (key : ColumnKey) (fresh : Expr) (stack : Stack) :
    stack.Grows (stateAfter (column key fresh stack)) := by
  rw [column]
  cases stack.column? key with
  | some held => exact .refl stack
  | none =>
    refine grows_onCurrent (fun frame ↦ ?_) stack
    exact frame.grows_column key fresh

end Stack

namespace Lowering

/-! ### Steps that only add -/

/-- A step that leaves the stack as it was, or with something added to its innermost frame. -/
def Adds {α : Type} (step : Step α) : Prop :=
  ∀ stack : Stack, stack.Grows (stateAfter (step stack))

section

variable {α β : Type}

theorem adds_pure (result : α) : Adds (pure result) :=
  Stack.Grows.refl

theorem adds_refuse (fault : Fault) : Adds (refuse (α := α) fault) :=
  Stack.Grows.refl

theorem Adds.bind {step : Step α} {next : α → Step β} (h : Adds step) (hnext : ∀ a, Adds (next a)) :
    Adds (step >>= next) := by
  intro stack
  have hstep := h stack
  change stack.Grows (stateAfter (EStateM.bind step next stack))
  rw [EStateM.bind]
  cases hresult : step stack with
  | ok a middle =>
    rw [hresult] at hstep
    exact hstep.trans (hnext a middle)
  | error failure after =>
    rw [hresult] at hstep
    exact hstep

theorem adds_onStack {step : EStateM Violation Stack α}
    (h : ∀ stack : Stack, stack.Grows (stateAfter (step stack))) : Adds (onStack step) := by
  intro stack
  have hstep := h stack
  simp only [onStack, EStateM.adaptExcept]
  cases hresult : step stack with
  | ok result after =>
    rw [hresult] at hstep
    exact hstep
  | error violation after =>
    rw [hresult] at hstep
    exact hstep

theorem adds_modify {change : Stack → Stack} (h : ∀ stack : Stack, stack.Grows (change stack)) :
    Adds (modify change) :=
  h

theorem Adds.check {condition : Bool} {fault : Fault} {step : Step α} (h : Adds step) :
    Adds (if condition = true then refuse (α := PUnit) fault >>= fun _ ↦ step else step) := by
  cases condition with
  | true => exact (adds_refuse fault).bind fun _ ↦ h
  | false => exact h

end

theorem adds_selectionAt (index : Nat) (spec : QuerySpec) : Adds (selectionAt index spec) := by
  unfold selectionAt
  cases spec.selections[index]? with
  | none => exact Stack.Grows.refl
  | some item => exact adds_pure item

theorem adds_lowerAttributes (graph : EntityGraph) (node : FetchNode)
    (attributes : List Attribute) (cells : List (String × Cell)) :
    Adds (lowerAttributes graph node attributes cells) := by
  induction attributes generalizing cells with
  | nil => exact adds_pure cells
  | cons attr rest ih =>
    rw [lowerAttributes]
    refine (adds_onStack (Stack.grows_column _ _)).bind fun answer ↦ ?_
    exact (adds_onStack (Stack.grows_select _ _ _)).bind fun item ↦ ih _

mutual

theorem adds_lowerEntity (node : FetchNode) : ∀ graph : EntityGraph, Adds (lowerEntity node graph)
  | ⟨_, _, table, attributes, fetches⟩ => by
    rw [lowerEntity]
    refine Adds.check ?_
    refine (adds_modify (Stack.grows_mapCurrent fun frame ↦ frame.grows_addTable table)).bind
      fun _ ↦ ?_
    refine (adds_lowerAttributes _ node attributes []).bind fun cells ↦ ?_
    exact (adds_lowerFetches node fetches []).bind fun readers ↦ adds_pure _
  termination_by structural graph => graph

theorem adds_lowerFetches (node : FetchNode) : ∀ (fetches : List (String × EntityGraph))
    (done : List (String × EntityReader)), Adds (lowerFetches node fetches done)
  | [], done => adds_pure done
  | (name, graph) :: rest, done => by
    rw [lowerFetches]
    refine Adds.check ?_
    exact (adds_lowerEntity (node.fetch name) graph).bind
      fun reader ↦ adds_lowerFetches node rest _
  termination_by structural fetches => fetches

end

/-- A block leaves the stack as it was, also when it is refused. -/
theorem lowerBlock_eq_ok_or_fault (config : Config) (flat : Bool) (query : Query) (stack : Stack) :
    (∃ lowered, lowerBlock config flat query stack = .ok lowered stack) ∨
      ∃ fault, lowerBlock config flat query stack = .error (.fault fault) stack := by
  have hblock := endsIn_lowerBlock config flat query stack
  cases hresult : lowerBlock config flat query stack with
  | ok lowered after =>
    rw [hresult] at hblock
    obtain rfl : after = stack := hblock
    exact .inl ⟨lowered, rfl⟩
  | error failure after =>
    rw [hresult] at hblock
    cases failure with
    | fault fault =>
      obtain rfl : after = stack := hblock
      exact .inr ⟨fault, rfl⟩
    | violation violation => exact hblock.elim

theorem adds_lowerItem (config : Config) (item : QueryItem) : Adds (lowerItem config item) := by
  cases item with
  | scalar e type label =>
    rw [lowerItem]
    exact (adds_onStack (Stack.grows_select e type none)).bind fun item ↦ adds_pure _
  | entity graph =>
    rw [lowerItem]
    exact (adds_lowerEntity _ graph).bind fun reader ↦ adds_pure _
  | subquery query label =>
    have hblock : Adds (lowerBlock config config.shareSubquerySelections query) := by
      intro stack
      obtain ⟨_, h⟩ | ⟨_, h⟩ := lowerBlock_eq_ok_or_fault config _ query stack
      · exact h ▸ .refl stack
      · exact h ▸ .refl stack
    rw [lowerItem]
    refine hblock.bind fun lowered ↦ Adds.check ?_
    refine (adds_selectionAt 0 lowered.spec).bind fun only ↦ ?_
    exact (adds_onStack (Stack.grows_select _ _ none)).bind fun item ↦ adds_pure _

/-- Lowering leaves the stack that it works on as it should be, for every stack, whatever its frames
hold, and every outcome. A block ends with a result or a fault and the very stack that it started
from. A selected thing and an entity leave the frames around the innermost one alone, and only add
to that one. -/
theorem stack_kept (config : Config) (stack : Stack) :
    (∀ (flat : Bool) (query : Query),
      (∃ lowered, lowerBlock config flat query stack = .ok lowered stack) ∨
        ∃ fault, lowerBlock config flat query stack = .error (.fault fault) stack) ∧
    (∀ item : QueryItem, stack.Grows (stateAfter (lowerItem config item stack))) ∧
    ∀ (node : FetchNode) (graph : EntityGraph),
      stack.Grows (stateAfter (lowerEntity node graph stack)) :=
  ⟨fun flat query ↦ lowerBlock_eq_ok_or_fault config flat query stack,
    fun item ↦ adds_lowerItem config item stack, fun node graph ↦ adds_lowerEntity node graph stack⟩

end Lowering

end ObjectSelect
