import ObjectSelect.Proofs.Isolation

/-!
# Broken contracts do no damage

A step breaks a contract when it needs a frame and there is none, or when something is to be
selected in a group of parts (`Step.Breaks`, `Step.breaks_of_run`). In the first case nothing has
happened. In the second the table of the scope is made before the group is noticed, so the cache of
the innermost frame may have come to have a table without entries, and this is all that differs.

Such a table changes no later answer. Frames that differ at most in tables without entries are
matched (`Frame.Matches`), and steps on a frame do not tell matched frames apart (`Frame.Blind`).
From there the relation goes to stacks and, by recursion on the steps, to whole runs
(`Step.alike_runAll`): the answers are the same, and so are the stacks between them, up to tables
without entries. That the frames of every stack that a run can reach have caches of the kind that
their sharing asks for is the same statement about one stack taken twice.
-/

set_option autoImplicit false
set_option relaxedAutoImplicit false

namespace ObjectSelect

/-- How a step ends, without the state that it leaves. -/
def outcome {ε σ α : Type} : EStateM.Result ε σ α → Except ε α
  | .ok result _ => .ok result
  | .error violation _ => .error violation

/-! ### Caches that find the same -/

namespace SelectionCache

/-- Caches of one block that find the same selections. -/
structure Agrees (shares : Bool) (cache other : SelectionCache) : Prop where
  left_fits : cache.Fits shares
  right_fits : other.Fits shares
  find?_eq : ∀ scope e, cache.find? scope e = other.find? scope e

variable {shares : Bool} {cache other : SelectionCache}

/-- Caches agree after each of them has made the table of a scope. -/
theorem Agrees.exists_ready (h : Agrees shares cache other) (node : Option FetchNode) :
    ∃ made made', cache.ready (Scope.of shares node) = .ok made ∧
      other.ready (Scope.of shares node) = .ok made' ∧ Agrees shares made made' := by
  obtain ⟨made, hmade, hfits⟩ := SelectionCache.exists_ready h.left_fits node
  obtain ⟨made', hmade', hfits'⟩ := SelectionCache.exists_ready h.right_fits node
  refine ⟨made, made', hmade, hmade', hfits, hfits', fun scope e ↦ ?_⟩
  rw [find?_of_ready hmade, find?_of_ready hmade', h.find?_eq]

/-- Caches agree after each of them has remembered the same. -/
theorem Agrees.put {scope : Scope} {made made' : SelectionCache} (h : Agrees shares made made')
    (hmade : cache.ready scope = .ok made) (hmade' : other.ready scope = .ok made') (e : Expr)
    (item : Selection) : Agrees shares (made.put scope e item) (made'.put scope e item) := by
  refine ⟨fits_put h.left_fits scope e item, fits_put h.right_fits scope e item, fun asked e' ↦ ?_⟩
  by_cases hscope : scope = .off
  · rw [hscope, put_off, put_off, h.find?_eq]
  · rw [find?_put hmade hscope, find?_put hmade' hscope, h.find?_eq]

/-- A cache agrees with what it was before the table of a scope was made. -/
theorem Opens.agrees {node : Option FetchNode} {made : SelectionCache}
    (h : Opens (Scope.of shares node) cache made) (hfits : cache.Fits shares) :
    Agrees shares made cache := by
  have hmade := ready_eq_ok_iff.mpr h
  obtain ⟨made', hmade', hfits'⟩ := SelectionCache.exists_ready hfits node
  obtain rfl : made' = made := Except.ok.inj (hmade'.symm.trans hmade)
  exact ⟨hfits', hfits, find?_of_ready hmade⟩

end SelectionCache

/-! ### Frames that answer alike -/

namespace Frame

/-- Frames that differ at most in tables without entries, and whose caches are of the kind that
their sharing asks for. -/
structure Matches (frame other : Frame) : Prop where
  part_eq : frame.part = other.part
  flat_eq : frame.flat = other.flat
  columns_eq : frame.columns = other.columns
  clause_eq : frame.clause = other.clause
  cache_agrees : SelectionCache.Agrees frame.flat frame.cache other.cache

theorem matches_start (part : QueryPart) (flat : Bool) :
    (start part flat).Matches (start part flat) :=
  ⟨rfl, rfl, rfl, rfl, trivial, trivial, fun _ _ ↦ rfl⟩

theorem Matches.setClause {frame other : Frame} (h : frame.Matches other) (clause : Clause) :
    Matches { frame with clause := clause } { other with clause := clause } :=
  ⟨h.part_eq, h.flat_eq, h.columns_eq, rfl, h.cache_agrees⟩

/-- A step on a frame that does not tell frames apart that differ in tables without entries. -/
def Blind {α : Type} (step : EStateM Violation Frame α) : Prop :=
  ∀ frame other : Frame, frame.Matches other → outcome (step frame) = outcome (step other) ∧
    (stateAfter (step frame)).Matches (stateAfter (step other))

theorem blind_select (e : Expr) (type : ValueType) (node : Option FetchNode) :
    Blind (select e type node) := by
  rintro ⟨part, flat, cache, columns, clause⟩ ⟨_, _, cache', _, _⟩ ⟨rfl, rfl, rfl, rfl, hagrees⟩
  obtain ⟨made, made', hmade, hmade', hmades⟩ := hagrees.exists_ready node
  rw [select_of_ready hmade, select_of_ready hmade']
  simp only [hmades.find?_eq]
  cases made'.find? (Scope.of flat node) e with
  | some held => exact ⟨rfl, rfl, rfl, rfl, rfl, hmades⟩
  | none =>
    cases part with
    | group operator parts => exact ⟨rfl, rfl, rfl, rfl, rfl, hmades⟩
    | spec spec =>
      simp only [register, QuerySpec.append_eq]
      exact ⟨rfl, rfl, rfl, rfl, rfl, hmades.put hmade hmade' e _⟩

theorem blind_column (key : ColumnKey) (fresh : Expr) :
    Blind fun frame ↦ .ok (frame.column key fresh).1 (frame.column key fresh).2 := by
  intro frame other h
  have hheld : frame.column? key = other.column? key := congrArg (List.lookup key) h.columns_eq
  simp only [column, hheld]
  cases other.column? key with
  | some held => exact ⟨rfl, h⟩
  | none =>
    have hcolumns : frame.columns ++ [(key, fresh)] = other.columns ++ [(key, fresh)] := by
      rw [h.columns_eq]
    exact ⟨rfl, h.part_eq, h.flat_eq, hcolumns, h.clause_eq, h.cache_agrees⟩

theorem blind_appendUncached (e : Expr) (type : ValueType) : Blind (appendUncached e type) := by
  intro frame other h
  obtain ⟨position, part, happend⟩ := exists_appendUncached e type other.part
  rw [happend frame h.part_eq, happend other rfl]
  exact ⟨rfl, rfl, h.flat_eq, h.columns_eq, h.clause_eq, h.cache_agrees⟩

/-- A frame in which nothing changed but the tables of its cache, which have the same entries. -/
structure Spared (frame left : Frame) : Prop where
  part_eq : left.part = frame.part
  flat_eq : left.flat = frame.flat
  clause_eq : left.clause = frame.clause
  columns_eq : left.columns = frame.columns
  entries_eq : left.cache.entries = frame.cache.entries

theorem Spared.refl (frame : Frame) : frame.Spared frame :=
  ⟨rfl, rfl, rfl, rfl, rfl⟩

end Frame

namespace Stack

/-! ### Runs that answer alike -/

/-- Stacks that differ at most in tables without entries. -/
abbrev Matches (stack other : Stack) : Prop :=
  List.Forall₂ Frame.Matches stack other

mutual

/-- The same answer, but for the stacks that it records. -/
inductive Answer.Alike : Answer → Answer → Prop
  | same (answer : Answer) : Answer.Alike answer answer
  | run {answers others : List (Answer × Stack)} (h : RunsAlike answers others) :
    Answer.Alike (.run answers) (.run others)

/-- The same answers step by step, with stacks between them that differ at most in tables without
entries. -/
inductive RunsAlike : List (Answer × Stack) → List (Answer × Stack) → Prop
  | nil : RunsAlike [] []
  | cons {answer answer' : Answer} {after after' : Stack} {rest others : List (Answer × Stack)}
    (hanswer : Answer.Alike answer answer') (hafter : after.Matches after')
    (hrest : RunsAlike rest others) :
    RunsAlike ((answer, after) :: rest) ((answer', after') :: others)

end

section

variable {stack other : Stack}

theorem Matches.setClause (h : stack.Matches other) (clause : Clause) :
    Matches (stack.mapCurrent fun frame ↦ { frame with clause := clause })
      (other.mapCurrent fun frame ↦ { frame with clause := clause }) := by
  cases h with
  | nil => exact .nil
  | cons hframe houter => exact .cons (hframe.setClause clause) houter

/-- A blind step on the innermost frame ends alike on matched stacks. -/
theorem Matches.onCurrent {α : Type} {step : EStateM Violation Frame α} (h : stack.Matches other)
    (hstep : Frame.Blind step) : outcome (onCurrent step stack) = outcome (onCurrent step other) ∧
      (stateAfter (onCurrent step stack)).Matches (stateAfter (onCurrent step other)) := by
  rw [stateAfter_onCurrent, stateAfter_onCurrent]
  cases h with
  | nil => exact ⟨rfl, .nil⟩
  | @cons frame frame' outer outer' hframe houter =>
    obtain ⟨houtcome, hafter⟩ := hstep frame frame' hframe
    have hinnermost (frame : Frame) (outer : Stack) :
        outcome (Stack.onCurrent step (frame :: outer)) = outcome (step frame) := by
      rw [Stack.onCurrent]
      cases step frame with
      | ok result after => rfl
      | error violation after => rfl
    exact ⟨by rw [hinnermost, hinnermost, houtcome], .cons hafter houter⟩

theorem Matches.column?_eq (h : stack.Matches other) (key : ColumnKey) :
    stack.column? key = other.column? key := by
  induction h with
  | nil => rfl
  | cons hframe _ ih => rw [column?_cons, column?_cons, Frame.column?, Frame.column?,
      hframe.columns_eq, ih]

end

namespace Step

theorem conclude_fst_congr {α : Type} (answer : α → Answer)
    {result result' : EStateM.Result Violation Stack α} (h : outcome result = outcome result') :
    (conclude answer result).1 = (conclude answer result').1 := by
  cases result <;> cases result' <;> cases h <;> rfl

/-- Steps that end alike are answered alike. -/
theorem alike_conclude {α : Type} {result result' : EStateM.Result Violation Stack α}
    (h : outcome result = outcome result' ∧ (stateAfter result).Matches (stateAfter result'))
    (answer : α → Answer) : (conclude answer result).1.Alike (conclude answer result').1 ∧
      (conclude answer result).2.Matches (conclude answer result').2 := by
  rw [conclude_fst_congr answer h.1, conclude_snd, conclude_snd]
  exact ⟨.same _, h.2⟩

mutual

/-- Matched stacks answer a step alike and are matched afterwards. -/
theorem alike_run : ∀ (step : Step) {stack other : Stack}, stack.Matches other →
    (step.run stack).1.Alike (step.run other).1 ∧ (step.run stack).2.Matches (step.run other).2
  | push part flat, _, _, h => ⟨.same _, .cons (Frame.matches_start part flat) h⟩
  | pop, _, _, h => by
    cases h with
    | nil => exact ⟨.same _, .nil⟩
    | cons hframe houter =>
      simp only [run, Stack.pop, hframe.part_eq]
      exact ⟨.same _, houter⟩
  | select e type node, _, _, h => alike_conclude (h.onCurrent (Frame.blind_select e type node)) _
  | column key fresh, stack, other, h => by
    have hcolumn := h.column?_eq key
    rw [run, run, Stack.column, Stack.column, hcolumn]
    cases other.column? key with
    | some held => exact ⟨.same _, h⟩
    | none => exact alike_conclude (h.onCurrent (Frame.blind_column key fresh)) _
  | currentColumn key fresh, _, _, h =>
    alike_conclude (h.onCurrent (Frame.blind_column key fresh)) _
  | findColumn key, stack, other, h => by
    have hcurrent : stack.current?.bind (Frame.column? key) =
        other.current?.bind (Frame.column? key) := by
      cases h with
      | nil => rfl
      | cons hframe _ => exact congrArg (List.lookup key) hframe.columns_eq
    have henclosing : stack.enclosing?.bind (Frame.column? key) =
        other.enclosing?.bind (Frame.column? key) := by
      cases h with
      | nil => rfl
      | cons _ houter =>
        cases houter with
        | nil => rfl
        | cons hframe _ => exact congrArg (List.lookup key) hframe.columns_eq
    rw [run, run, hcurrent, henclosing]
    exact ⟨.same _, h⟩
  | withClause clause body, _, _, h => by
    cases h with
    | nil => exact ⟨.same _, .nil⟩
    | cons hframe houter =>
      obtain ⟨hanswers, hafter⟩ := alike_runAll body (.cons (hframe.setClause clause) houter)
      simp only [run, Stack.withClause, conclude, hframe.clause_eq]
      exact ⟨.run hanswers, hafter.setClause _⟩
  | setClause clause, _, _, h => by
    refine alike_conclude (h.onCurrent fun frame other hframe ↦ ?_) _
    exact ⟨congrArg Except.ok hframe.clause_eq, hframe.setClause clause⟩
  | setPart part, _, _, h => by
    refine alike_conclude (h.onCurrent fun frame other hframe ↦ ?_) _
    exact ⟨rfl, rfl, hframe.flat_eq, hframe.columns_eq, hframe.clause_eq, hframe.cache_agrees⟩
  | append e type, _, _, h =>
    alike_conclude (h.onCurrent (Frame.blind_appendUncached e type)) _
  | inspect, _, _, h => by
    cases h with
    | nil => exact ⟨.same _, .nil⟩
    | cons hframe houter =>
      simp only [run, current?, List.head?_cons, Option.map_some, hframe.part_eq]
      exact ⟨.same _, .cons hframe houter⟩
  termination_by structural step => step

theorem alike_runAll : ∀ (steps : List Step) {stack other : Stack}, stack.Matches other →
    RunsAlike (runAll steps stack).1 (runAll steps other).1 ∧
      (runAll steps stack).2.Matches (runAll steps other).2
  | [], _, _, h => ⟨.nil, h⟩
  | step :: rest, _, _, h => by
    obtain ⟨hanswer, hafter⟩ := alike_run step h
    obtain ⟨hanswers, hlast⟩ := alike_runAll rest hafter
    rw [runAll_cons, runAll_cons]
    exact ⟨.cons hanswer hafter hanswers, hlast⟩
  termination_by structural steps => steps

end

/-! ### Steps that break a contract -/

end Step

/-- Without frames there is nothing to step on; with one, a violation is that of the step on it. -/
theorem onCurrent_eq_error {α : Type} {step : EStateM Violation Frame α} {stack after : Stack}
    {violation : Violation} (h : onCurrent step stack = .error violation after) :
    (stack = [] ∧ violation = .noBlock ∧ after = []) ∨
      ∃ frame outer left, stack = frame :: outer ∧ step frame = .error violation left ∧
        after = left :: outer := by
  cases stack with
  | nil =>
    cases h
    exact .inl ⟨rfl, rfl, rfl⟩
  | cons frame outer =>
    simp only [onCurrent] at h
    cases hstep : step frame with
    | ok result left =>
      rw [hstep] at h
      cases h
    | error violation left =>
      rw [hstep] at h
      cases h
      exact .inr ⟨frame, outer, left, rfl, hstep, rfl⟩

namespace Step

/-- Whether a step works on the innermost frame, so that there has to be one. -/
def needsFrame : Step → Bool
  | select _ _ _ | column _ _ | currentColumn _ _ | withClause _ _ | setClause _ | setPart _
  | append _ _ => true
  | push _ _ | pop | findColumn _ | inspect => false

/-- A step breaks a contract on a stack, and this is the stack that it leaves. -/
inductive Breaks : Step → Stack → Violation → Stack → Prop
  | noBlock (step : Step) (hneeds : step.needsFrame = true) : Breaks step [] .noBlock []
  | notASpec {frame : Frame} {cache : SelectionCache} (e : Expr) (type : ValueType)
    (node : Option FetchNode) (outer : Stack) (hpart : frame.part.isSpec = false)
    (hfind : frame.cache.find? (Scope.of frame.flat node) e = none)
    (hcache : SelectionCache.Opens (Scope.of frame.flat node) frame.cache cache) :
    Breaks (select e type node) (frame :: outer) .notASpec ({ frame with cache := cache } :: outer)

section

variable {step : Step} {stack after : Stack} {violation : Violation}

theorem eq_error_of_conclude {α : Type} {answer : α → Answer}
    {result : EStateM.Result Violation Stack α}
    (h : conclude answer result = (.violated violation, after))
    (hanswer : ∀ value, answer value ≠ .violated violation) : result = .error violation after := by
  cases result with
  | ok value left => exact absurd (congrArg Prod.fst h) (hanswer value)
  | error violation left =>
    cases h
    rfl

/-- A step that succeeds on every frame breaks a contract only where there is no frame. -/
theorem breaks_of_onCurrent {α : Type} {onFrame : EStateM Violation Frame α} {answer : α → Answer}
    (h : conclude answer (onCurrent onFrame stack) = (.violated violation, after))
    (hanswer : ∀ value, answer value ≠ .violated violation)
    (hsafe : ∀ frame : Frame, ∃ result left, onFrame frame = .ok result left)
    (hneeds : step.needsFrame = true) : step.Breaks stack violation after := by
  rcases onCurrent_eq_error (eq_error_of_conclude h hanswer) with
    ⟨rfl, rfl, rfl⟩ | ⟨frame, outer, left, -, herror, -⟩
  · exact .noBlock step hneeds
  · obtain ⟨result, left', hok⟩ := hsafe frame
    rw [hok] at herror
    cases herror

theorem breaks_of_select {e : Expr} {type : ValueType} {node : Option FetchNode}
    (hfits : ∀ frame ∈ stack, frame.cache.Fits frame.flat)
    (h : Stack.select e type node stack = .error violation after) :
    (select e type node).Breaks stack violation after := by
  rcases onCurrent_eq_error h with ⟨rfl, rfl, rfl⟩ | ⟨frame, outer, left, rfl, hselect, rfl⟩
  · exact .noBlock _ rfl
  · obtain ⟨cache, hready, -⟩ := SelectionCache.exists_ready (hfits frame List.mem_cons_self) node
    rw [Frame.select_of_ready hready] at hselect
    cases hfind : cache.find? (Scope.of frame.flat node) e with
    | some held =>
      rw [hfind] at hselect
      cases hselect
    | none =>
      rw [hfind] at hselect
      rw [SelectionCache.find?_of_ready hready] at hfind
      obtain ⟨part, flat, held, columns, clause⟩ := frame
      cases part with
      | spec spec =>
        simp only [Frame.register, QuerySpec.append_eq] at hselect
        cases hselect
      | group operator parts =>
        cases hselect
        exact .notASpec e type node outer rfl hfind (SelectionCache.ready_eq_ok_iff.mp hready)

/-- Every violation is one of these, if the caches are of the kind that the sharing asks for. -/
theorem breaks_of_run (hfits : ∀ frame ∈ stack, frame.cache.Fits frame.flat)
    (h : step.run stack = (.violated violation, after)) : step.Breaks stack violation after := by
  cases step with
  | push part flat => cases h
  | pop => cases h
  | findColumn key => cases h
  | inspect => cases h
  | select e type node =>
    rw [run] at h
    exact breaks_of_select hfits (eq_error_of_conclude h fun _ ↦ nofun)
  | column key fresh =>
    rw [run, Stack.column] at h
    cases hheld : stack.column? key with
    | some held =>
      rw [hheld] at h
      cases h
    | none =>
      rw [hheld] at h
      exact breaks_of_onCurrent h (fun _ ↦ nofun) (fun _ ↦ ⟨_, _, rfl⟩) rfl
  | currentColumn key fresh =>
    rw [run] at h
    exact breaks_of_onCurrent h (fun _ ↦ nofun) (fun _ ↦ ⟨_, _, rfl⟩) rfl
  | withClause clause body =>
    rw [run] at h
    cases stack with
    | nil =>
      cases h
      exact .noBlock _ rfl
    | cons frame outer => cases h
  | setClause clause =>
    rw [run] at h
    exact breaks_of_onCurrent h (fun _ ↦ nofun) (fun _ ↦ ⟨_, _, rfl⟩) rfl
  | setPart part =>
    rw [run] at h
    exact breaks_of_onCurrent h (fun _ ↦ nofun) (fun _ ↦ ⟨_, _, rfl⟩) rfl
  | append e type =>
    rw [run] at h
    refine breaks_of_onCurrent h (fun _ ↦ nofun) (fun frame ↦ ?_) rfl
    obtain ⟨position, part, happend⟩ := Frame.exists_appendUncached e type frame.part
    exact ⟨_, _, happend frame rfl⟩

/-- Each of these is a violation. -/
theorem Breaks.run_eq (h : step.Breaks stack violation after) :
    step.run stack = (.violated violation, after) := by
  cases h with
  | noBlock step hneeds =>
    cases step with
    | push part flat => cases hneeds
    | pop => cases hneeds
    | findColumn key => cases hneeds
    | inspect => cases hneeds
    | select e type node => rfl
    | column key fresh => rfl
    | currentColumn key fresh => rfl
    | withClause clause body => rfl
    | setClause clause => rfl
    | setPart part => rfl
    | append e type => rfl
  | @notASpec frame cache e type node outer hpart hfind hcache =>
    have hready := SelectionCache.ready_eq_ok_iff.mpr hcache
    have hselect : Frame.select e type node frame =
        .error .notASpec { frame with cache := cache } := by
      rw [Frame.select_of_ready hready, SelectionCache.find?_of_ready hready, hfind]
      obtain ⟨part, flat, held, columns, clause⟩ := frame
      cases part with
      | spec spec => cases hpart
      | group operator parts => rfl
    rw [run, Stack.select, onCurrent, hselect, conclude]

/-- What is left has the same frames, with the same entries in their tables. -/
theorem Breaks.spared (h : step.Breaks stack violation after) :
    List.Forall₂ Frame.Spared stack after := by
  cases h with
  | noBlock => exact .nil
  | notASpec e type node outer _ _ hcache =>
    have houter : List.Forall₂ Frame.Spared outer outer :=
      List.forall₂_same.mpr fun frame _ ↦ .refl frame
    exact .cons ⟨rfl, rfl, rfl, rfl, hcache.entries_eq⟩ houter

/-- What is left differs at most in a table without entries. -/
theorem Breaks.left_matches (h : step.Breaks stack violation after) (hstack : stack.Matches stack) :
    after.Matches stack := by
  cases h with
  | noBlock => exact .nil
  | notASpec e type node outer _ _ hcache =>
    cases hstack with
    | cons hframe houter =>
      have hagrees := hcache.agrees hframe.cache_agrees.left_fits
      exact .cons ⟨rfl, rfl, rfl, rfl, hagrees⟩ houter

end

/-- Whatever came before it, a step breaks a contract in the two cases that `Step.Breaks` lists, and
then it does no damage: the frames are as they were but for a table without entries, and every later
run is answered as if the step had not been taken. -/
theorem violated_harmless (past : List Step) (step : Step) (violation : Violation) (after : Stack) :
    (step.run (runAll past []).2 = (.violated violation, after) ↔
      step.Breaks (runAll past []).2 violation after) ∧
    (step.Breaks (runAll past []).2 violation after →
      List.Forall₂ Frame.Spared (runAll past []).2 after ∧
      ∀ later : List Step,
        RunsAlike (runAll later after).1 (runAll later (runAll past []).2).1) := by
  have hstack : (runAll past []).2.Matches (runAll past []).2 := (alike_runAll past .nil).2
  have hfits : ∀ frame ∈ (runAll past []).2, frame.cache.Fits frame.flat := fun frame hmem ↦
    (List.forall₂_same.mp hstack frame hmem).cache_agrees.left_fits
  refine ⟨⟨breaks_of_run hfits, Breaks.run_eq⟩, fun hbreaks ↦ ⟨hbreaks.spared, fun later ↦ ?_⟩⟩
  exact (alike_runAll later (hbreaks.left_matches hstack)).1

/-- A demand in a group of parts. The violation comes after the table of the fetch root has been
made. -/
theorem violated_harmless_in_group :
    let past := [push emptyBlock false, push (.group .union []) false]
    let step := select (.parameter 1) .int (some (.root (.root "Person" none)))
    let opened : SelectionCache := .perRoot [(.root "Person" none, [])]
    let after := [⟨.group .union [], false, opened, [], .irrelevant⟩, .start emptyBlock false]
    step.run (runAll past []).2 = (.violated .notASpec, after) ∧
      List.Forall₂ Frame.Spared (runAll past []).2 after ∧
      ∀ later : List Step,
        RunsAlike (runAll later after).1 (runAll later (runAll past []).2).1 := by
  intro past step opened after
  have hrun : step.run (runAll past []).2 = (.violated .notASpec, after) := rfl
  obtain ⟨hbreaks, hharmless⟩ := violated_harmless past step .notASpec after
  exact ⟨hrun, hharmless (hbreaks.mp hrun)⟩

end Step

end Stack

end ObjectSelect
