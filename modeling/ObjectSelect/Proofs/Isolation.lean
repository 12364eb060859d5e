import ObjectSelect.Proofs.Growth
import ObjectSelect.Stack.Step

/-!
# Frames on their own

Frames begin and end inside one another, and each is worked on whenever it is the innermost one.
What a frame selects does not show any of this. A `Stack.Solo` is a frame without others: the part
and the flag that it starts with, and the demands made of it one after the other. `Step.follow`
sorts the demands of a run by the frame that is innermost when they are made, and
`Step.AllAnsweredAlone` says of the answers of a run that each selection, and each part that a `pop`
gives, is the one of that frame without others.

A frame that waits while steps are taken inside it stays as it is. `Step.aboveAll?` follows how many
frames there are inside it, and finds nothing as soon as a step is taken while the frame itself is
the innermost one. The clause is the exception: a body of `withClause` that ends its own frame gives
the clause of that frame to the one that waited for it (`Step.clause_of_ended_frame`).

Both hold of every run that does not edit parts past the caches, and `Step.runAll_isolated` states
them.
-/

set_option autoImplicit false
set_option relaxedAutoImplicit false

namespace ObjectSelect

/-! ### Frames that select alike -/

namespace Frame

/-- Frames that differ at most in their columns and in their clause. -/
structure Alike (frame other : Frame) : Prop where
  part_eq : frame.part = other.part
  flat_eq : frame.flat = other.flat
  cache_eq : frame.cache = other.cache

/-- Two outcomes of the same step: the same selection or violation, and frames alike. -/
inductive SameOutcome :
    EStateM.Result Violation Frame Selection → EStateM.Result Violation Frame Selection → Prop
  | ok {after other : Frame} (item : Selection) (h : after.Alike other) :
    SameOutcome (.ok item after) (.ok item other)
  | error {after other : Frame} (violation : Violation) (h : after.Alike other) :
    SameOutcome (.error violation after) (.error violation other)

theorem Alike.refl (frame : Frame) : frame.Alike frame :=
  ⟨rfl, rfl, rfl⟩

theorem Alike.trans {first middle last : Frame} (h : first.Alike middle) (h' : middle.Alike last) :
    first.Alike last :=
  ⟨h.part_eq.trans h'.part_eq, h.flat_eq.trans h'.flat_eq, h.cache_eq.trans h'.cache_eq⟩

theorem alike_setClause (frame : Frame) (clause : Clause) :
    { frame with clause := clause }.Alike frame :=
  ⟨rfl, rfl, rfl⟩

theorem alike_column (frame : Frame) (key : ColumnKey) (fresh : Expr) :
    (frame.column key fresh).2.Alike frame := by
  rw [column]
  cases frame.column? key with
  | some held => exact .refl frame
  | none => exact ⟨rfl, rfl, rfl⟩

/-- Frames that are alike answer a demand alike: what they remember of columns, and the clause that
they are in, plays no part in it. -/
theorem Alike.answer {frame other : Frame} (h : frame.Alike other) (d : Demand) :
    SameOutcome (answer d frame) (answer d other) := by
  obtain ⟨part, flat, cache, columns, clause⟩ := frame
  obtain ⟨part', flat', cache', columns', clause'⟩ := other
  obtain ⟨rfl, rfl, rfl⟩ : part = part' ∧ flat = flat' ∧ cache = cache' :=
    ⟨h.part_eq, h.flat_eq, h.cache_eq⟩
  rw [Frame.answer]
  cases hready : cache.ready (Scope.of flat d.node) with
  | error violation =>
    rw [select_of_not_ready hready, select_of_not_ready hready]
    exact .error violation h
  | ok ready =>
    rw [select_of_ready hready, select_of_ready hready]
    cases ready.find? (Scope.of flat d.node) d.expr with
    | some held => exact .ok held ⟨rfl, rfl, rfl⟩
    | none =>
      cases part with
      | group operator parts => exact .error .notASpec ⟨rfl, rfl, rfl⟩
      | spec spec =>
        simp only [register, QuerySpec.append_eq]
        exact .ok _ ⟨rfl, rfl, rfl⟩

end Frame

namespace Stack

/-! ### Frames without others -/

/-- A frame without others: the part and the flag that it starts with, and the demands made of it,
first one first. -/
structure Solo where
  part : QueryPart
  flat : Bool
  demands : List Demand

namespace Solo

/-- The frame after its demands. A demand that breaks a contract leaves the frame as it has made it
by then, and the next demand goes on from there. -/
def frame (solo : Solo) : Frame :=
  solo.demands.foldl (fun frame d ↦ stateAfter (Frame.answer d frame)) (.start solo.part solo.flat)

/-- What one more demand is answered. -/
def answer (solo : Solo) (d : Demand) : Answer :=
  match Frame.answer d solo.frame with
  | .ok item _ => .selection item
  | .error violation _ => .violated violation

/-- The frame with one more demand. -/
def note (solo : Solo) (d : Demand) : Solo :=
  { solo with demands := solo.demands ++ [d] }

theorem frame_note (solo : Solo) (d : Demand) :
    (solo.note d).frame = stateAfter (Frame.answer d solo.frame) := by
  simp [note, frame]

end Solo

/-- Each frame of the stack is like the one without others at its place. -/
abbrev Mirrors (stack : Stack) (solos : List Solo) : Prop :=
  List.Forall₂ (fun frame solo ↦ Frame.Alike frame solo.frame) stack solos

section

variable {stack : Stack} {solos : List Solo}

theorem Mirrors.mapCurrent {change : Frame → Frame} (h : stack.Mirrors solos)
    (hchange : ∀ frame : Frame, (change frame).Alike frame) :
    (stack.mapCurrent change).Mirrors solos := by
  cases h with
  | nil => exact .nil
  | cons hframe houter => exact .cons ((hchange _).trans hframe) houter

theorem Mirrors.onCurrent {α : Type} {step : EStateM Violation Frame α} (h : stack.Mirrors solos)
    (hstep : ∀ frame : Frame, (stateAfter (step frame)).Alike frame) :
    (stateAfter (onCurrent step stack)).Mirrors solos := by
  rw [stateAfter_onCurrent]
  exact h.mapCurrent hstep

theorem Mirrors.currentColumn (h : stack.Mirrors solos) (key : ColumnKey) (fresh : Expr) :
    (stateAfter (currentColumn key fresh stack)).Mirrors solos :=
  h.onCurrent fun frame ↦ frame.alike_column key fresh

theorem Mirrors.column (h : stack.Mirrors solos) (key : ColumnKey) (fresh : Expr) :
    (stateAfter (column key fresh stack)).Mirrors solos := by
  rw [Stack.column]
  cases stack.column? key with
  | some held => exact h
  | none => exact h.currentColumn key fresh

end

namespace Step

/-! ### Runs -/

mutual

/-- The frames without others after a step: a new one starts with no demands, the innermost one
ends, or it has one more demand. The steps inside `withClause` are taken if there is a frame. -/
def follow : Step → List Solo → List Solo
  | push part flat, solos => ⟨part, flat, []⟩ :: solos
  | pop, solos => solos.tail
  | select e type node, solo :: outer => solo.note ⟨e, type, node⟩ :: outer
  | select _ _ _, [] => []
  | withClause _ body, solo :: outer => followAll body (solo :: outer)
  | withClause _ _, [] => []
  | column _ _, solos | currentColumn _ _, solos | findColumn _, solos | setClause _, solos
  | setPart _, solos | append _ _, solos | inspect, solos => solos
  termination_by structural step => step

/-- The frames without others after steps taken one after the other. -/
def followAll : List Step → List Solo → List Solo
  | [], solos => solos
  | step :: rest, solos => followAll rest (step.follow solos)
  termination_by structural steps => steps

end

mutual

/-- The answer to `pop` is the part of the innermost frame as it is without others, and the answer
to `select` is the one that this frame gives; inside `withClause` the same holds of each step. -/
def AnsweredAlone : Step → List Solo → Answer → Prop
  | pop, solos, answer => answer = .part (solos.head?.map fun solo ↦ solo.frame.part)
  | select e type node, solo :: _, answer => answer = solo.answer ⟨e, type, node⟩
  | select _ _ _, [], answer => answer = .violated .noBlock
  | withClause _ body, solo :: outer, answer =>
    ∃ answers, answer = .run answers ∧ AllAnsweredAlone body (solo :: outer) answers
  | withClause _ _, [], answer => answer = .violated .noBlock
  | push _ _, _, _ | column _ _, _, _ | currentColumn _ _, _, _ | findColumn _, _, _
  | setClause _, _, _ | setPart _, _, _ | append _ _, _, _ | inspect, _, _ => True
  termination_by structural step => step

/-- Every step has its answer as if the frames were without others, and after every step each frame
of the stack is like the one without others. -/
def AllAnsweredAlone : List Step → List Solo → List (Answer × Stack) → Prop
  | [], _, answers => answers = []
  | step :: rest, solos, answers =>
    ∃ answer after others, answers = (answer, after) :: others ∧ step.AnsweredAlone solos answer ∧
      after.Mirrors (step.follow solos) ∧ AllAnsweredAlone rest (step.follow solos) others
  termination_by structural steps => steps

end

mutual

/-- Whether a step changes a part without asking the caches, itself or inside `withClause`. -/
def edits : Step → Bool
  | setPart _ | append _ _ => true
  | withClause _ body => anyEdits body
  | push _ _ | pop | select _ _ _ | column _ _ | currentColumn _ _ | findColumn _ | setClause _
  | inspect => false
  termination_by structural step => step

/-- Whether one of the steps changes a part without asking the caches. -/
def anyEdits : List Step → Bool
  | [] => false
  | step :: rest => step.edits || anyEdits rest
  termination_by structural steps => steps

end

mutual

/-- How many frames there are inside one that waits, after a step that starts with `n` of them;
nothing if a step is taken while the frame that waits is itself the innermost one. -/
def above? : Step → Nat → Option Nat
  | _, 0 => none
  | push _ _, n + 1 => some (n + 2)
  | pop, n + 1 => some n
  | withClause _ body, n + 1 => aboveAll? body (n + 1)
  | select _ _ _, n + 1 | column _ _, n + 1 | currentColumn _ _, n + 1 | findColumn _, n + 1
  | setClause _, n + 1 | setPart _, n + 1 | append _ _, n + 1 | inspect, n + 1 => some (n + 1)
  termination_by structural step => step

/-- The same after steps taken one after the other. -/
def aboveAll? : List Step → Nat → Option Nat
  | [], n => some n
  | step :: rest, n => (step.above? n).bind (aboveAll? rest)
  termination_by structural steps => steps

end

@[simp]
theorem conclude_snd {α : Type} (answer : α → Answer) (result : EStateM.Result Violation Stack α) :
    (conclude answer result).2 = stateAfter result := by
  cases result <;> rfl

theorem runAll_cons (step : Step) (rest : List Step) (stack : Stack) :
    runAll (step :: rest) stack =
      (((step.run stack).1, (step.run stack).2) :: (runAll rest (step.run stack).2).1,
        (runAll rest (step.run stack).2).2) := by
  rw [runAll]

/-- A selection is asked of the innermost frame, and this one gives what it gives without others. -/
theorem mirrors_select {stack : Stack} {solos : List Solo} (h : stack.Mirrors solos) (e : Expr)
    (type : ValueType) (node : Option FetchNode) :
    ((select e type node).run stack).2.Mirrors ((select e type node).follow solos) ∧
      (select e type node).AnsweredAlone solos ((select e type node).run stack).1 := by
  cases h with
  | nil => exact ⟨.nil, rfl⟩
  | @cons frame solo outer others hframe houter =>
    have hanswer := hframe.answer ⟨e, type, node⟩
    have hnote := solo.frame_note ⟨e, type, node⟩
    rw [run, Stack.select, onCurrent, follow, AnsweredAlone, Solo.answer]
    rw [Frame.answer] at hanswer hnote ⊢
    generalize Frame.select e type node frame = result at hanswer ⊢
    generalize Frame.select e type node solo.frame = alone at hanswer hnote ⊢
    cases hanswer with
    | ok item hafter => exact ⟨.cons (by rwa [hnote]) houter, rfl⟩
    | error violation hafter => exact ⟨.cons (by rwa [hnote]) houter, rfl⟩

mutual

/-- A step that edits no part keeps every frame like the one without others, and is answered as
those answer. -/
theorem mirrors_run : ∀ (step : Step) {stack : Stack} {solos : List Solo}, stack.Mirrors solos →
    step.edits = false →
    (step.run stack).2.Mirrors (step.follow solos) ∧ step.AnsweredAlone solos (step.run stack).1
  | push part flat, _, _, h, _ => by
    rw [run, follow, AnsweredAlone]
    exact ⟨.cons (.refl _) h, trivial⟩
  | pop, _, _, h, _ => by
    rw [run, follow, AnsweredAlone]
    cases h with
    | nil => exact ⟨.nil, rfl⟩
    | cons hframe houter => exact ⟨houter, by rw [Stack.pop, hframe.part_eq]; rfl⟩
  | select e type node, _, _, h, _ => mirrors_select h e type node
  | column key fresh, _, _, h, _ => by
    rw [run, conclude_snd, follow, AnsweredAlone]
    exact ⟨h.column key fresh, trivial⟩
  | currentColumn key fresh, _, _, h, _ => by
    rw [run, conclude_snd, follow, AnsweredAlone]
    exact ⟨h.currentColumn key fresh, trivial⟩
  | withClause clause body, _, _, h, hedits => by
    cases h with
    | nil =>
      rw [run, Stack.withClause, follow, AnsweredAlone]
      exact ⟨.nil, rfl⟩
    | @cons frame solo outer others hframe houter =>
      have hinside : Mirrors ({ frame with clause := clause } :: outer) (solo :: others) :=
        .cons ((frame.alike_setClause clause).trans hframe) houter
      obtain ⟨hafter, hanswers⟩ := mirrors_runAll body hinside hedits
      rw [run, Stack.withClause, conclude_snd, follow, AnsweredAlone]
      exact ⟨hafter.mapCurrent fun innermost ↦ innermost.alike_setClause frame.clause,
        _, rfl, hanswers⟩
  | setClause clause, _, _, h, _ => by
    rw [run, conclude_snd, follow, AnsweredAlone]
    exact ⟨h.onCurrent fun frame ↦ frame.alike_setClause clause, trivial⟩
  | findColumn _, _, _, h, _ | inspect, _, _, h, _ => by
    rw [run, follow, AnsweredAlone]
    exact ⟨h, trivial⟩
  termination_by structural step => step

theorem mirrors_runAll : ∀ (steps : List Step) {stack : Stack} {solos : List Solo},
    stack.Mirrors solos → anyEdits steps = false →
    (runAll steps stack).2.Mirrors (followAll steps solos) ∧
      AllAnsweredAlone steps solos (runAll steps stack).1
  | [], _, _, h, _ => ⟨h, rfl⟩
  | step :: rest, _, _, h, hedits => by
    rw [anyEdits, Bool.or_eq_false_iff] at hedits
    obtain ⟨hafter, hanswer⟩ := mirrors_run step h hedits.1
    obtain ⟨hlast, hanswers⟩ := mirrors_runAll rest hafter hedits.2
    rw [runAll_cons]
    exact ⟨hlast, _, _, _, rfl, hanswer, hafter, hanswers⟩
  termination_by structural steps => steps

end

/-- A stack with `n` frames inside one that waits, and with `outer` around it. The clause of the one
that waits may have changed if it is innermost by now. -/
inductive Covers (waiting : Frame) (outer : List Frame) (n : Nat) : Stack → Prop
  | intro (inner : List Frame) (clause : Clause) (hlength : inner.length = n)
    (hclause : n ≠ 0 → clause = waiting.clause) :
    Covers waiting outer n (inner ++ { waiting with clause := clause } :: outer)

section

variable {waiting : Frame} {outer : List Frame} {stack : Stack} {n m : Nat}

/-- What is done to the innermost frame is not done to one that waits. -/
theorem Covers.mapCurrent (h : Covers waiting outer (n + 1) stack) (change : Frame → Frame) :
    Covers waiting outer (n + 1) (stack.mapCurrent change) := by
  cases h with
  | intro inner clause hlength hclause =>
    obtain ⟨innermost, between, rfl⟩ := List.exists_cons_of_length_eq_add_one hlength
    exact .intro (change innermost :: between) clause hlength hclause

theorem Covers.onCurrent {α : Type} (h : Covers waiting outer (n + 1) stack)
    (step : EStateM Violation Frame α) :
    Covers waiting outer (n + 1) (stateAfter (Stack.onCurrent step stack)) := by
  rw [stateAfter_onCurrent]
  exact h.mapCurrent _

/-- A clause that is given back reaches the frame that waits only if nothing is inside it. -/
theorem Covers.setClause (h : Covers waiting outer n stack) (clause : Clause) :
    Covers waiting outer n (stack.mapCurrent fun frame ↦ { frame with clause := clause }) := by
  cases n with
  | zero =>
    cases h with
    | intro inner previous hlength hclause =>
      obtain rfl := List.length_eq_zero_iff.mp hlength
      exact .intro [] clause rfl fun hne ↦ (hne rfl).elim
  | succ n => exact h.mapCurrent _

/-- `withClause` does to a frame that waits what its body does to it, and at most sets its clause
afterwards. -/
theorem Covers.withClause {α : Type} {body : Stack → α × Stack}
    (h : Covers waiting outer (n + 1) stack) (clause : Clause)
    (hbody : ∀ inside, Covers waiting outer (n + 1) inside →
      Covers waiting outer m (body inside).2) :
    Covers waiting outer m (stateAfter (Stack.withClause clause body stack)) := by
  cases h with
  | intro inner previous hlength hclause =>
    obtain ⟨innermost, between, rfl⟩ := List.exists_cons_of_length_eq_add_one hlength
    have hinside := hbody _ (.intro ({ innermost with clause := clause } :: between) previous
      hlength hclause)
    exact hinside.setClause innermost.clause

theorem Covers.push (h : Covers waiting outer (n + 1) stack) (part : QueryPart) (flat : Bool) :
    Covers waiting outer (n + 2) (stack.push part flat) := by
  cases h with
  | intro inner clause hlength hclause =>
    exact .intro (.start part flat :: inner) clause (by rw [List.length_cons, hlength])
      fun _ ↦ hclause n.succ_ne_zero

theorem Covers.pop (h : Covers waiting outer (n + 1) stack) :
    Covers waiting outer n stack.pop.2 := by
  cases h with
  | intro inner clause hlength hclause =>
    obtain ⟨innermost, between, rfl⟩ := List.exists_cons_of_length_eq_add_one hlength
    exact .intro between clause (Nat.succ.inj hlength) fun _ ↦ hclause n.succ_ne_zero

end

mutual

/-- A step that is taken inside a frame that waits leaves that frame as it is, but for the
clause. -/
theorem covers_run : ∀ (step : Step) {waiting : Frame} {outer : List Frame} {stack : Stack}
    {n m : Nat}, Covers waiting outer n stack → step.above? n = some m →
    Covers waiting outer m (step.run stack).2
  | _, _, _, _, 0, _, _, habove => by
    rw [above?] at habove
    cases habove
  | push part flat, _, _, _, n + 1, _, h, habove => by
    cases habove
    exact h.push part flat
  | pop, _, _, _, n + 1, _, h, habove => by
    cases habove
    exact h.pop
  | withClause clause body, _, _, _, n + 1, _, h, habove => by
    rw [run, conclude_snd]
    exact h.withClause clause fun _ hinside ↦ covers_runAll body hinside habove
  | column key _, _, _, stack, n + 1, _, h, habove => by
    cases habove
    rw [run, conclude_snd, Stack.column]
    cases stack.column? key with
    | some held => exact h
    | none => exact h.onCurrent _
  | select _ _ _, _, _, _, n + 1, _, h, habove | currentColumn _ _, _, _, _, n + 1, _, h, habove
  | setClause _, _, _, _, n + 1, _, h, habove | setPart _, _, _, _, n + 1, _, h, habove
  | append _ _, _, _, _, n + 1, _, h, habove => by
    cases habove
    rw [run, conclude_snd]
    exact h.onCurrent _
  | findColumn _, _, _, _, n + 1, _, h, habove | inspect, _, _, _, n + 1, _, h, habove => by
    cases habove
    rwa [run]
  termination_by structural step => step

theorem covers_runAll : ∀ (steps : List Step) {waiting : Frame} {outer : List Frame}
    {stack : Stack} {n m : Nat}, Covers waiting outer n stack → aboveAll? steps n = some m →
    Covers waiting outer m (runAll steps stack).2
  | [], _, _, _, _, _, h, habove => by
    cases habove
    exact h
  | step :: rest, _, _, _, _, _, h, habove => by
    rw [aboveAll?, Option.bind_eq_some_iff] at habove
    obtain ⟨middle, hstep, hrest⟩ := habove
    rw [runAll_cons]
    exact covers_runAll rest (covers_run step h hstep) hrest
  termination_by structural steps => steps

end

/-- Frames do not share what they select. Assumes: steps that edit no part past the caches, frames
started and ended as often and in any order, also inside `withClause`. Then every part that `pop`
gives, and every selection or violation, is the one of a frame that was started the same way and
asked only for what was asked while this frame was the innermost one.

A frame that waits, on whatever stack, is not changed by the steps taken inside it, and nor are
those around it. Only its clause can be another one at the moment when nothing is inside it any
more. -/
theorem runAll_isolated (steps : List Step) (hsteps : anyEdits steps = false) :
    AllAnsweredAlone steps [] (runAll steps []).1 ∧
    ∀ (inner : List Frame) (waiting : Frame) (outer : List Frame) (n : Nat),
      aboveAll? steps inner.length = some n →
      ∃ left clause, left.length = n ∧ (n ≠ 0 → clause = waiting.clause) ∧
        (runAll steps (inner ++ waiting :: outer)).2 =
          left ++ { waiting with clause := clause } :: outer := by
  refine ⟨(mirrors_runAll steps .nil hsteps).2, ?_⟩
  intro inner waiting outer n habove
  have hstart : Covers waiting outer inner.length (inner ++ waiting :: outer) :=
    .intro inner waiting.clause rfl fun _ ↦ rfl
  have hafter := covers_runAll steps hstart habove
  generalize (runAll steps (inner ++ waiting :: outer)).2 = after at hafter ⊢
  cases hafter with
  | intro left clause hlength hclause => exact ⟨left, clause, hlength, hclause, rfl⟩

/-- A block over no tables. -/
def emptyBlock : QueryPart :=
  .spec (.ofTables [])

/-- A block that is left in the middle of its work for another one. Both ask twice for the same
expression, the second time with another type. -/
def interrupted : List Step :=
  [push emptyBlock true, select (.parameter 1) .int none,
    withClause .condition [push emptyBlock true, select (.parameter 1) .string none,
      select (.parameter 1) .int none, pop, select (.parameter 1) .string none], pop]

theorem interrupted_isolated :
    anyEdits interrupted = false ∧ aboveAll? interrupted 1 = some 1 ∧
      AllAnsweredAlone interrupted [] (runAll interrupted []).1 ∧
      ∃ left, left.length = 1 ∧
        (runAll interrupted [.start emptyBlock false, .start emptyBlock true]).2 =
          left ++ [.start emptyBlock true] := by
  obtain ⟨halone, hwaiting⟩ := runAll_isolated interrupted rfl
  obtain ⟨left, clause, hlength, hclause, hrun⟩ :=
    hwaiting [.start emptyBlock false] (.start emptyBlock true) [] 1 rfl
  obtain rfl := hclause Nat.one_ne_zero
  exact ⟨rfl, rfl, halone, left, hlength, hrun⟩

/-- The clause of a frame is not its own. A frame in the clause `select` waits while a frame inside
it takes one step, a `withClause` whose body ends that frame; then the one that waited is in the
clause that the ended frame was started in. -/
theorem clause_of_ended_frame :
    let waiting : Frame := { Frame.start emptyBlock true with clause := .select }
    let started : Frame := .start emptyBlock true
    runAll [push emptyBlock true,
        withClause .select [push emptyBlock true, withClause .condition [pop]]] [] =
      ([(.done, [started]),
        (.run [(.done, [started, waiting]),
          (.run [(.part (some emptyBlock), [waiting])], [{ waiting with clause := .irrelevant }])],
          [started])], [started]) ∧
    waiting.clause ≠ .irrelevant := by
  refine ⟨rfl, ?_⟩
  decide

end Step

end Stack

end ObjectSelect
