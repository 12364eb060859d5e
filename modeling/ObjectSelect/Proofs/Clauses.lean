import ObjectSelect.Proofs.Isolation

/-!
# The clauses of frames

`withClause` sets aside the clause of the innermost frame and, when its body is over, gives it to
the frame that is innermost then. `Step.insideAll?` follows a frame through a body: it counts the
frames inside it and finds nothing once the frame is ended. So a body ends in the frame that it
began in just when none is inside this frame at its end and it was never ended, and then
`withClause` leaves every clause as it was.

Otherwise some clauses are not those from before (`Step.withClause_clauses`). A frame that is
innermost at the end gets the clause that was innermost at the beginning. A frame with others inside
it at the end stays in the clause in which the body has left it. For a body whose own uses of
`withClause` all end where they began, this is the clause from before, or the one that was set if
the frame was the innermost one (`Step.under_run`).
-/

set_option autoImplicit false
set_option relaxedAutoImplicit false

namespace ObjectSelect

namespace Frame

/-- A step on a frame that leaves the clause as it is, whether it ends with a result or not. -/
def KeepsClause {α : Type} (step : EStateM Violation Frame α) : Prop :=
  ∀ frame : Frame, (stateAfter (step frame)).clause = frame.clause

theorem keepsClause_select (e : Expr) (type : ValueType) (node : Option FetchNode) :
    KeepsClause (select e type node) :=
  fun frame ↦ (frame.grows_select e type node).clause_eq

theorem keepsClause_appendUncached (e : Expr) (type : ValueType) :
    KeepsClause (appendUncached e type) := by
  intro frame
  obtain ⟨position, part, happend⟩ := exists_appendUncached e type frame.part
  rw [happend frame rfl]
  rfl

end Frame

namespace Stack

/-! ### A frame and the frames around it -/

/-- A stack in which a frame with a clause has `n` frames inside it and `outer` around it. -/
inductive Under (clause : Clause) (outer : Stack) (n : Nat) : Stack → Prop
  | intro (inner : List Frame) (frame : Frame) (hlength : inner.length = n)
    (hclause : frame.clause = clause) : Under clause outer n (inner ++ frame :: outer)

namespace Under

variable {clause : Clause} {outer stack : Stack} {n : Nat}

theorem mapCurrent {change : Frame → Frame} (h : Under clause outer n stack)
    (hchange : ∀ frame : Frame, (change frame).clause = frame.clause) :
    Under clause outer n (stack.mapCurrent change) := by
  obtain ⟨inner, frame, hlength, hclause⟩ := h
  cases inner with
  | nil => exact .intro [] (change frame) hlength ((hchange frame).trans hclause)
  | cons innermost between => exact .intro (change innermost :: between) frame hlength hclause

theorem onCurrent {α : Type} {step : EStateM Violation Frame α} (h : Under clause outer n stack)
    (hstep : Frame.KeepsClause step) :
    Under clause outer n (stateAfter (onCurrent step stack)) := by
  rw [stateAfter_onCurrent]
  exact h.mapCurrent hstep

theorem currentColumn (h : Under clause outer n stack) (key : ColumnKey) (fresh : Expr) :
    Under clause outer n (stateAfter (Stack.currentColumn key fresh stack)) :=
  h.onCurrent fun frame ↦ (frame.grows_column key fresh).clause_eq

theorem column (h : Under clause outer n stack) (key : ColumnKey) (fresh : Expr) :
    Under clause outer n (stateAfter (Stack.column key fresh stack)) := by
  unfold Stack.column
  cases stack.column? key with
  | some held => exact h
  | none => exact h.currentColumn key fresh

theorem push (h : Under clause outer n stack) (part : QueryPart) (flat : Bool) :
    Under clause outer (n + 1) (stack.push part flat) := by
  obtain ⟨inner, frame, rfl, hclause⟩ := h
  exact .intro (.start part flat :: inner) frame rfl hclause

theorem pop (h : Under clause outer (n + 1) stack) : Under clause outer n stack.pop.2 := by
  obtain ⟨inner, frame, hlength, hclause⟩ := h
  obtain ⟨innermost, between, rfl⟩ := List.exists_cons_of_length_eq_add_one hlength
  exact .intro between frame (Nat.succ.inj hlength) hclause

/-- Setting the innermost clause changes the clause of the frame if nothing is inside it. -/
theorem setInnermost (h : Under clause outer n stack) (set : Clause) :
    Under (if n = 0 then set else clause) outer n
      (stack.mapCurrent fun frame ↦ { frame with clause := set }) := by
  obtain ⟨inner, frame, rfl, hclause⟩ := h
  cases inner with
  | nil => exact .intro [] { frame with clause := set } rfl rfl
  | cons innermost between =>
    exact .intro ({ innermost with clause := set } :: between) frame rfl hclause

theorem ne_nil (h : Under clause outer n stack) : stack ≠ [] := by
  obtain ⟨inner, frame, -, -⟩ := h
  simp

end Under

namespace Step

/-! ### Following a frame -/

mutual

/-- How many frames there are inside a frame after a step that starts with `n` of them; nothing if
the step ends the frame. -/
def inside? : Step → Nat → Option Nat
  | push _ _, n => some (n + 1)
  | pop, 0 => none
  | pop, n + 1 => some n
  | withClause _ body, n => insideAll? body n
  | select _ _ _, n | column _ _, n | currentColumn _ _, n | findColumn _, n | setClause _, n
  | setPart _, n | append _ _, n | inspect, n => some n
  termination_by structural step => step

/-- The same after steps taken one after the other. -/
def insideAll? : List Step → Nat → Option Nat
  | [], n => some n
  | step :: rest, n => (step.inside? n).bind (insideAll? rest)
  termination_by structural steps => steps

end

mutual

/-- More frames inside at the beginning are more frames inside at the end. -/
theorem inside?_add : ∀ (step : Step) {n m : Nat} (more : Nat), step.inside? n = some m →
    step.inside? (n + more) = some (m + more)
  | push _ _, n, _, more, h => by
    cases h
    exact congrArg some (Nat.add_right_comm n more 1)
  | pop, 0, _, _, h => nomatch h
  | pop, n + 1, _, more, h => by
    cases h
    rw [Nat.add_right_comm]
    rfl
  | withClause _ body, _, _, more, h => insideAll?_add body more h
  | select _ _ _, _, _, _, h | column _ _, _, _, _, h | currentColumn _ _, _, _, _, h
  | findColumn _, _, _, _, h | setClause _, _, _, _, h | setPart _, _, _, _, h
  | append _ _, _, _, _, h | inspect, _, _, _, h => by
    cases h
    rfl
  termination_by structural step => step

theorem insideAll?_add : ∀ (steps : List Step) {n m : Nat} (more : Nat),
    insideAll? steps n = some m → insideAll? steps (n + more) = some (m + more)
  | [], _, _, _, h => by
    cases h
    rfl
  | step :: rest, _, _, more, h => by
    obtain ⟨middle, hstep, hrest⟩ := Option.bind_eq_some_iff.mp h
    rw [insideAll?, inside?_add step more hstep]
    exact insideAll?_add rest more hrest
  termination_by structural steps => steps

end

mutual

/-- Whether each `withClause` in a step ends in the frame that it began in, and no clause is set
otherwise. -/
def bracketed : Step → Bool
  | withClause _ body => decide (insideAll? body 0 = some 0) && allBracketed body
  | setClause _ => false
  | push _ _ | pop | select _ _ _ | column _ _ | currentColumn _ _ | findColumn _ | setPart _
  | append _ _ | inspect => true
  termination_by structural step => step

/-- The same of steps taken one after the other. -/
def allBracketed : List Step → Bool
  | [] => true
  | step :: rest => step.bracketed && allBracketed rest
  termination_by structural steps => steps

end

/-- What `withClause` does to a stack with frames. -/
theorem run_withClause {stack : Stack} (hframes : stack ≠ []) (clause : Clause)
    (body : List Step) : ((withClause clause body).run stack).2 =
      (runAll body (stack.mapCurrent fun frame ↦ { frame with clause := clause })).2.mapCurrent
        fun frame ↦ { frame with clause := stack.clause } := by
  cases stack with
  | nil => exact absurd rfl hframes
  | cons frame outer => rfl

theorem run_setClause (clause : Clause) (stack : Stack) : ((setClause clause).run stack).2 =
    stack.mapCurrent fun frame ↦ { frame with clause := clause } := by
  cases stack <;> rfl

mutual

/-- A frame that a step does not end is there afterwards, with the same frames around it. If the
step is bracketed, the frame is in the same clause. -/
theorem under_run : ∀ (step : Step) {clause : Clause} {outer stack : Stack} {n m : Nat},
    Under clause outer n stack → step.inside? n = some m →
    ∃ left, Under left outer m (step.run stack).2 ∧ (step.bracketed = true → left = clause)
  | push part flat, clause, _, _, _, _, h, hinside => by
    cases hinside
    exact ⟨clause, h.push part flat, fun _ ↦ rfl⟩
  | pop, _, _, _, 0, _, _, hinside => nomatch hinside
  | pop, clause, _, _, _ + 1, _, h, hinside => by
    cases hinside
    exact ⟨clause, h.pop, fun _ ↦ rfl⟩
  | withClause set body, clause, outer, stack, n, m, h, hinside => by
    obtain ⟨left, hleft, hbody⟩ := under_runAll body (h.setInnermost set) hinside
    rw [run_withClause h.ne_nil]
    refine ⟨_, hleft.setInnermost stack.clause, fun hbracketed ↦ ?_⟩
    rw [bracketed, Bool.and_eq_true, decide_eq_true_eq] at hbracketed
    obtain ⟨hends, hall⟩ := hbracketed
    have hshift := insideAll?_add body n hends
    rw [Nat.zero_add] at hshift
    obtain rfl : n = m := Option.some.inj (hshift.symm.trans hinside)
    by_cases hn : n = 0
    · subst hn
      obtain ⟨inner, frame, hlength, rfl⟩ := h
      obtain rfl := List.length_eq_zero_iff.mp hlength
      rfl
    · simp [hn, hbody hall]
  | column key fresh, clause, _, _, _, _, h, hinside => by
    cases hinside
    rw [run, conclude_snd]
    exact ⟨clause, h.column key fresh, fun _ ↦ rfl⟩
  | currentColumn key fresh, clause, _, _, _, _, h, hinside => by
    cases hinside
    rw [run, conclude_snd]
    exact ⟨clause, h.currentColumn key fresh, fun _ ↦ rfl⟩
  | select e type node, clause, _, _, _, _, h, hinside => by
    cases hinside
    rw [run, conclude_snd]
    exact ⟨clause, h.onCurrent (Frame.keepsClause_select e type node), fun _ ↦ rfl⟩
  | append e type, clause, _, _, _, _, h, hinside => by
    cases hinside
    rw [run, conclude_snd]
    exact ⟨clause, h.onCurrent (Frame.keepsClause_appendUncached e type), fun _ ↦ rfl⟩
  | setPart part, clause, _, _, _, _, h, hinside => by
    cases hinside
    rw [run, conclude_snd]
    exact ⟨clause, h.onCurrent fun frame ↦ rfl, fun _ ↦ rfl⟩
  | setClause set, _, _, stack, _, _, h, hinside => by
    cases hinside
    rw [run_setClause]
    exact ⟨_, h.setInnermost set, fun hbracketed ↦ nomatch hbracketed⟩
  | findColumn _, clause, _, _, _, _, h, hinside | inspect, clause, _, _, _, _, h, hinside => by
    cases hinside
    exact ⟨clause, h, fun _ ↦ rfl⟩
  termination_by structural step => step

theorem under_runAll : ∀ (steps : List Step) {clause : Clause} {outer stack : Stack}
    {n m : Nat}, Under clause outer n stack → insideAll? steps n = some m →
    ∃ left, Under left outer m (runAll steps stack).2 ∧ (allBracketed steps = true → left = clause)
  | [], clause, _, _, _, _, h, hinside => by
    cases hinside
    exact ⟨clause, h, fun _ ↦ rfl⟩
  | step :: rest, _, _, _, _, _, h, hinside => by
    obtain ⟨middle, hstep, hrest⟩ := Option.bind_eq_some_iff.mp hinside
    obtain ⟨between, hbetween, hfirst⟩ := under_run step h hstep
    obtain ⟨left, hleft, hlast⟩ := under_runAll rest hbetween hrest
    rw [runAll_cons]
    refine ⟨left, hleft, fun hbracketed ↦ ?_⟩
    rw [allBracketed, Bool.and_eq_true] at hbracketed
    exact (hlast hbracketed.2).trans (hfirst hbracketed.1)
  termination_by structural steps => steps

end

/-- `withClause` makes `last`, with the frames of `left` inside it, of a frame with those of `inner`
inside it. The frames around it stay as they are. -/
structure Becomes (clause : Clause) (body : List Step) (inner : List Frame) (frame : Frame)
    (outer : Stack) (left : List Frame) (last : Frame) : Prop where
  run_eq : ((withClause clause body).run (inner ++ frame :: outer)).2 = left ++ last :: outer
  /-- The frame that is innermost at the end has the clause that was innermost before. -/
  innermost : left = [] → last.clause = Stack.clause (inner ++ frame :: outer)
  /-- Another frame is what the body has made of it. -/
  waiting : left ≠ [] → ∃ others,
    (runAll body (mapCurrent (fun innermost ↦ { innermost with clause := clause })
      (inner ++ frame :: outer))).2 = others ++ last :: outer
  /-- If the body is bracketed, another frame has its own clause, or the one that was set if it was
  the innermost one before. -/
  bracketed : left ≠ [] → allBracketed body = true →
    last.clause = if inner = [] then clause else frame.clause

/-- What becomes of a frame that the body of `withClause` does not end. -/
theorem exists_becomes (clause : Clause) {body : List Step} {inner : List Frame} {n : Nat}
    (hinside : insideAll? body inner.length = some n) (frame : Frame) (outer : Stack) :
    ∃ left last, left.length = n ∧ Becomes clause body inner frame outer left last := by
  have hbegin : Under frame.clause outer inner.length (inner ++ frame :: outer) :=
    .intro inner frame rfl rfl
  obtain ⟨reached, hreached, hbody⟩ := under_runAll body (hbegin.setInnermost clause) hinside
  have hrun := run_withClause hbegin.ne_nil clause body
  generalize hafter : (runAll body (mapCurrent (fun innermost ↦ { innermost with clause := clause })
    (inner ++ frame :: outer))).2 = after at hreached hrun
  obtain ⟨left, last, hlength, hclause⟩ := hreached
  cases left with
  | nil => exact ⟨[], _, hlength, hrun, fun _ ↦ rfl, fun hne ↦ absurd rfl hne,
      fun hne ↦ absurd rfl hne⟩
  | cons innermost between =>
    refine ⟨{ innermost with clause := Stack.clause (inner ++ frame :: outer) } :: between, last,
      hlength, hrun, fun hnil ↦ (nomatch hnil), fun _ ↦ ⟨_, hafter⟩, fun _ hall ↦ ?_⟩
    rw [hclause, hbody hall]
    simp only [List.length_eq_zero_iff]

/-- What becomes of the clauses of frames in `withClause`. A body that ends in the frame that it
began in leaves every clause of the stack as it was. In general, what becomes of each frame that the
body does not end is said by `Becomes`: the frame that is innermost at the end has the clause that
was innermost before, be this its own or not, and the others are left by the body, in their own
clauses or in the one that was set. -/
theorem withClause_clauses (clause : Clause) (body : List Step) :
    (insideAll? body 0 = some 0 → ∀ stack : Stack,
      ((withClause clause body).run stack).2.map Frame.clause = stack.map Frame.clause) ∧
    ∀ (inner : List Frame) (n : Nat), insideAll? body inner.length = some n →
      ∀ (frame : Frame) (outer : Stack),
        ∃ left last, left.length = n ∧ Becomes clause body inner frame outer left last := by
  refine ⟨fun hends stack ↦ ?_, fun inner n hinside ↦ exists_becomes clause hinside⟩
  cases stack with
  | nil => rfl
  | cons frame outer =>
    have hinside : insideAll? body ([] : List Frame).length = some 0 := hends
    obtain ⟨left, last, hlength, hlast⟩ := exists_becomes clause hinside frame outer
    obtain rfl := List.length_eq_zero_iff.mp hlength
    have hrun : ((withClause clause body).run (frame :: outer)).2 = last :: outer := hlast.run_eq
    have hclause : last.clause = frame.clause := hlast.innermost rfl
    rw [hrun, List.map_cons, List.map_cons, hclause]

/-- A frame over no tables that is in a clause. -/
def inClause (clause : Clause) : Frame :=
  { Frame.start emptyBlock true with clause := clause }

/-- In a body that starts and ends a frame the clauses stay as they were. A body that ends the
innermost frame hands its clause to the next one, and below a frame that the body starts and does
not end the clause stays the one that was set. -/
theorem withClause_clauses_having :
    insideAll? [push emptyBlock true, withClause .condition [inspect], pop] 0 = some 0 ∧
    ((withClause .select [push emptyBlock true, withClause .condition [inspect], pop]).run
      [inClause .having, inClause .orderBy]).2.map Frame.clause = [.having, .orderBy] ∧
    (∃ last, ((withClause .select [pop]).run [inClause .having, inClause .orderBy]).2 = [last] ∧
      last.clause = .having) ∧
    ∃ first last, ((withClause .select [push emptyBlock true]).run
      [inClause .having, inClause .orderBy]).2 = [first, last, inClause .orderBy] ∧
        last.clause = .select := by
  obtain ⟨hkept, -⟩ :=
    withClause_clauses .select [push emptyBlock true, withClause .condition [inspect], pop]
  obtain ⟨-, hended⟩ := withClause_clauses .select [pop]
  obtain ⟨-, hopen⟩ := withClause_clauses .select [push emptyBlock true]
  obtain ⟨left, last, hleft, hlast⟩ :=
    hended [inClause .having] 0 rfl (inClause .orderBy) []
  obtain ⟨left', last', hleft', hlast'⟩ :=
    hopen [] 1 rfl (inClause .having) [inClause .orderBy]
  obtain rfl := List.length_eq_zero_iff.mp hleft
  obtain ⟨first, rfl⟩ := List.length_eq_one_iff.mp hleft'
  refine ⟨rfl, hkept rfl _, ⟨last, hlast.run_eq, hlast.innermost rfl⟩,
    first, last', hlast'.run_eq, ?_⟩
  exact hlast'.bracketed (List.cons_ne_nil _ _) rfl

/-- A clause that is not restored. The body of `withClause` starts a frame and leaves it there; the
frame that `withClause` has put into the clause is not ended, and stays in it. -/
theorem clause_of_waiting_frame :
    insideAll? [push emptyBlock true] 0 = some 1 ∧
    ((withClause .select [push emptyBlock true]).run [inClause .irrelevant]).2 =
      [inClause .irrelevant, inClause .select] ∧
    (inClause .select).clause ≠ (inClause .irrelevant).clause :=
  ⟨rfl, rfl, by decide⟩

end Step

end Stack

end ObjectSelect
