import ObjectSelect.Proofs.Isolation

/-!
# Columns in nested scopes

Every frame of a stack remembers the expressions of columns, so the frames are scopes: a column is
looked for from the innermost one outwards, and what is not found is bound in the innermost one.
`Scopes` is what a stack remembers of columns and nothing else, and `Scopes.binding?` names a frame
by its level, the number of frames around it, which does not change while the frame is there.

`Step.history` lists the moments of a run: each step that was taken, also inside `withClause`, with
its answer and the stack after it. Between two moments nothing happens but that `withClause` sets
the clause of the innermost frame, so the scopes before a moment are those after the moment before
it. What they become is a function of the step and of the scopes (`Step.scopesAfter`), and `Leads`
follows them from moment to moment. A property of scopes that each step keeps therefore holds all
along (`Leads.exists_follows`). Two are of use: a binding stays as long as its frame
(`Step.binding?_scopesAfter`), and, without steps that bind past the enclosing frames, no key is
bound twice (`Step.unique_scopesAfter`).
-/

set_option autoImplicit false
set_option relaxedAutoImplicit false

namespace ObjectSelect

namespace Frame

/-! ### Selecting leaves columns alone -/

/-- A step on a frame that leaves the expressions of columns as they are, whether it ends with a
result or not. -/
def KeepsColumns {α : Type} (step : EStateM Violation Frame α) : Prop :=
  ∀ frame : Frame, (stateAfter (step frame)).columns = frame.columns

section

variable {α β : Type}

theorem keepsColumns_pure (result : α) : KeepsColumns (pure result) :=
  fun _ ↦ rfl

theorem keepsColumns_get : KeepsColumns get :=
  fun _ ↦ rfl

theorem KeepsColumns.bind {step : EStateM Violation Frame α}
    {next : α → EStateM Violation Frame β} (h : KeepsColumns step)
    (hnext : ∀ a, KeepsColumns (next a)) : KeepsColumns (step >>= next) := by
  intro frame
  have hstep := h frame
  change (stateAfter (EStateM.bind step next frame)).columns = frame.columns
  rw [EStateM.bind]
  cases hresult : step frame with
  | ok a after =>
    rw [hresult] at hstep
    exact (hnext a after).trans hstep
  | error violation after =>
    rw [hresult] at hstep
    exact hstep

end

theorem keepsColumns_prepare (scope : Scope) : KeepsColumns (prepare scope) := by
  intro frame
  rw [prepare]
  cases frame.cache.ready scope <;> rfl

theorem keepsColumns_register (e : Expr) (type : ValueType) : KeepsColumns (register e type) := by
  intro frame
  rw [register]
  cases frame.part with
  | group operator parts => rfl
  | spec spec =>
    simp only [QuerySpec.append_eq, stateAfter]

theorem keepsColumns_select (e : Expr) (type : ValueType) (node : Option FetchNode) :
    KeepsColumns (select e type node) := by
  refine keepsColumns_get.bind fun frame ↦ (keepsColumns_prepare _).bind fun _ ↦
    keepsColumns_get.bind fun prepared ↦ ?_
  cases prepared.cache.find? (Scope.of frame.flat node) e with
  | some held => exact keepsColumns_pure held
  | none =>
    exact (keepsColumns_register e type).bind fun item ↦
      KeepsColumns.bind (fun _ ↦ rfl) fun _ ↦ keepsColumns_pure item

theorem keepsColumns_appendUncached (e : Expr) (type : ValueType) :
    KeepsColumns (appendUncached e type) := by
  intro frame
  obtain ⟨position, part, happend⟩ := exists_appendUncached e type frame.part
  rw [happend frame rfl]
  rfl

end Frame

namespace Stack

/-! ### Scopes -/

/-- What the frames of a stack remember of columns, innermost frame first. -/
abbrev Scopes := List (List (ColumnKey × Expr))

/-- What a stack remembers of columns. -/
def scopes (stack : Stack) : Scopes :=
  stack.map Frame.columns

namespace Scopes

/-- The expression bound to a key in the frame that has `level` frames around it. -/
def binding? (level : Nat) (key : ColumnKey) (s : Scopes) : Option Expr :=
  s.reverse[level]?.bind (·.lookup key)

/-- The expression bound to a key in the innermost frame that binds the key. -/
def find? (key : ColumnKey) (s : Scopes) : Option Expr :=
  s.findSome? (·.lookup key)

/-- The scopes with one more binding in the innermost one. -/
def bind (key : ColumnKey) (e : Expr) : Scopes → Scopes
  | [] => []
  | innermost :: outer => (innermost ++ [(key, e)]) :: outer

/-- No key is bound in two frames. -/
def Unique (s : Scopes) : Prop :=
  ∀ key level level' e e', s.binding? level key = some e → s.binding? level' key = some e' →
    level = level'

variable {s outer : Scopes} {innermost : List (ColumnKey × Expr)} {key : ColumnKey} {e : Expr}
  {level : Nat}

theorem binding?_cons (level : Nat) (key : ColumnKey) (innermost : List (ColumnKey × Expr))
    (outer : Scopes) : binding? level key (innermost :: outer) =
      if level = outer.length then innermost.lookup key else outer.binding? level key := by
  unfold binding?
  rw [List.reverse_cons, List.getElem?_append]
  by_cases hlt : level < outer.length
  · have hne : level ≠ outer.length := by omega
    simp [hlt, hne]
  · by_cases heq : level = outer.length
    · simp [heq]
    · have hgap : level - outer.length ≠ 0 := by omega
      simp [hlt, heq, hgap]

theorem lt_length_of_binding? (h : s.binding? level key = some e) : level < s.length := by
  obtain ⟨scope, hscope, -⟩ := Option.bind_eq_some_iff.mp h
  obtain ⟨hlt, -⟩ := List.getElem?_eq_some_iff.mp hscope
  simpa using hlt

theorem find?_cons (key : ColumnKey) (innermost : List (ColumnKey × Expr)) (outer : Scopes) :
    find? key (innermost :: outer) = (innermost.lookup key).or (outer.find? key) := by
  rw [find?, List.findSome?_cons]
  cases innermost.lookup key <;> rfl

/-- A key that is found is bound in a frame, and in none inside that one. -/
theorem exists_binding?_of_find? (h : s.find? key = some e) :
    ∃ level, s.binding? level key = some e ∧ ∀ inner, level < inner →
      s.binding? inner key = none := by
  induction s with
  | nil => cases h
  | cons innermost outer ih =>
    rw [find?_cons] at h
    cases hlookup : innermost.lookup key with
    | some held =>
      rw [hlookup, Option.some_or] at h
      refine ⟨outer.length, by rw [binding?_cons, if_pos rfl, hlookup, h], fun inner hinner ↦ ?_⟩
      by_contra hbound
      obtain ⟨e', he'⟩ := Option.ne_none_iff_exists'.mp hbound
      have hlt := lt_length_of_binding? he'
      rw [List.length_cons] at hlt
      omega
    | none =>
      rw [hlookup, Option.none_or] at h
      obtain ⟨level, hbound, hinner⟩ := ih h
      have hlevel : level ≠ outer.length := Nat.ne_of_lt (lt_length_of_binding? hbound)
      refine ⟨level, by rw [binding?_cons, if_neg hlevel, hbound], fun inner hlt ↦ ?_⟩
      rw [binding?_cons]
      split
      · exact hlookup
      · exact hinner inner hlt

theorem binding?_eq_none_of_find? (h : s.find? key = none) (level : Nat) :
    s.binding? level key = none := by
  induction s with
  | nil => rfl
  | cons innermost outer ih =>
    rw [find?_cons, Option.or_eq_none_iff] at h
    rw [binding?_cons]
    split
    · exact h.1
    · exact ih h.2

/-- Where no key is bound in two frames, a binding is found from everywhere. -/
theorem Unique.find?_eq (hunique : s.Unique) (h : s.binding? level key = some e) :
    s.find? key = some e := by
  cases hfind : s.find? key with
  | none =>
    rw [binding?_eq_none_of_find? hfind] at h
    cases h
  | some e' =>
    obtain ⟨level', h', -⟩ := exists_binding?_of_find? hfind
    obtain rfl := hunique key level level' e e' h h'
    rw [← h, h']

@[simp]
theorem length_bind (key : ColumnKey) (e : Expr) (s : Scopes) :
    (s.bind key e).length = s.length := by
  cases s <;> rfl

/-- A new binding in the innermost frame adds itself and changes nothing else. -/
theorem binding?_bind (hnew : s.head?.bind (·.lookup key) = none) (e : Expr) (level : Nat)
    (other : ColumnKey) : (s.bind key e).binding? level other =
      if level + 1 = s.length ∧ other = key then some e else s.binding? level other := by
  cases s with
  | nil => simp [bind]
  | cons innermost outer =>
    have hlookup : innermost.lookup key = none := hnew
    simp only [bind, binding?_cons, List.length_cons, Nat.add_right_cancel_iff,
      List.lookup_append]
    by_cases hlevel : level = outer.length
    · by_cases hother : other = key
      · subst hother
        simp [hlevel, hlookup]
      · have hkey : (other == key) = false := by simpa using hother
        simp [hlevel, hother, List.lookup_cons, hkey]
    · simp [hlevel]

/-- A key that is found nowhere is not found in the innermost frame. -/
theorem head?_bind_eq_none (h : s.find? key = none) : s.head?.bind (·.lookup key) = none := by
  cases s with
  | nil => rfl
  | cons innermost outer =>
    rw [find?_cons, Option.or_eq_none_iff] at h
    exact h.1

theorem Unique.push (hunique : s.Unique) : Unique ([] :: s) := by
  intro key level level' e e' h h'
  have hempty {level : Nat} {e : Expr} (h : binding? level key ([] :: s) = some e) :
      s.binding? level key = some e := by
    rw [binding?_cons] at h
    split at h
    · cases h
    · exact h
  exact hunique key level level' e e' (hempty h) (hempty h')

theorem Unique.tail (hunique : s.Unique) : Unique s.tail := by
  cases s with
  | nil => exact hunique
  | cons innermost outer =>
    intro key level level' e e' h h'
    have hkeep {level : Nat} {e : Expr} (h : binding? level key outer = some e) :
        binding? level key (innermost :: outer) = some e := by
      rw [binding?_cons, if_neg (Nat.ne_of_lt (lt_length_of_binding? h)), h]
    exact hunique key level level' e e' (hkeep h) (hkeep h')

/-- A key that is bound nowhere can be bound. -/
theorem Unique.bind (hunique : s.Unique) (hnew : s.find? key = none) (e : Expr) :
    (s.bind key e).Unique := by
  intro other level level' e₁ e₂ h h'
  rw [binding?_bind (head?_bind_eq_none hnew)] at h h'
  by_cases hother : other = key
  · subst hother
    have hnone := binding?_eq_none_of_find? hnew
    simp only [hnone, and_true, Option.ite_none_right_eq_some] at h h'
    omega
  · simp only [hother, and_false, if_false] at h h'
    exact hunique other level level' e₁ e₂ h h'

end Scopes

/-! ### What steps do to scopes -/

section

variable {stack : Stack}

theorem column?_eq_find? (key : ColumnKey) (stack : Stack) :
    stack.column? key = stack.scopes.find? key := by
  rw [Scopes.find?, scopes, List.findSome?_map]
  rfl

@[simp]
theorem length_scopes (stack : Stack) : stack.scopes.length = stack.length :=
  List.length_map _

/-- A step on the innermost frame that binds no column leaves the scopes as they are. -/
theorem scopes_onCurrent {α : Type} {step : EStateM Violation Frame α}
    (h : Frame.KeepsColumns step) (stack : Stack) :
    (stateAfter (onCurrent step stack)).scopes = stack.scopes := by
  rw [stateAfter_onCurrent]
  cases stack with
  | nil => rfl
  | cons frame outer =>
    change (stateAfter (step frame)).columns :: scopes outer = frame.columns :: scopes outer
    rw [h]

theorem scopes_setClause (clause : Clause) (stack : Stack) :
    (stack.mapCurrent fun frame ↦ { frame with clause := clause }).scopes = stack.scopes := by
  cases stack <;> rfl

/-- Asking the innermost frame for a column binds it there unless it is bound there. -/
theorem scopes_currentColumn (key : ColumnKey) (fresh : Expr) (stack : Stack) :
    (stateAfter (currentColumn key fresh stack)).scopes =
      if (stack.scopes.head?.bind (·.lookup key)).isSome then stack.scopes
      else stack.scopes.bind key fresh := by
  cases stack with
  | nil => rfl
  | cons frame outer =>
    have hcolumn : (frame.column key fresh).2.columns =
        if (frame.columns.lookup key).isSome then frame.columns
        else frame.columns ++ [(key, fresh)] := by
      rw [Frame.column, Frame.column?]
      cases frame.columns.lookup key <;> rfl
    change (frame.column key fresh).2.columns :: scopes outer =
      if (frame.columns.lookup key).isSome then frame.columns :: scopes outer
      else (frame.columns ++ [(key, fresh)]) :: scopes outer
    rw [hcolumn]
    split <;> rfl

end

namespace Step

/-- The scopes after a step. The steps inside `withClause` count for themselves. -/
def scopesAfter : Step → Scopes → Scopes
  | push _ _, s => [] :: s
  | pop, s => s.tail
  | column key fresh, s => if (s.find? key).isSome then s else s.bind key fresh
  | currentColumn key fresh, s =>
    if (s.head?.bind (·.lookup key)).isSome then s else s.bind key fresh
  | select _ _ _, s | findColumn _, s | withClause _ _, s | setClause _, s | setPart _, s
  | append _ _, s | inspect, s => s

/-- A binding stays where it is as long as its frame is there. -/
theorem binding?_scopesAfter {s : Scopes} {level : Nat} {key : ColumnKey} {e : Expr} (step : Step)
    (h : s.binding? level key = some e) (hlives : level < (step.scopesAfter s).length) :
    (step.scopesAfter s).binding? level key = some e := by
  have hlevel := Scopes.lt_length_of_binding? h
  have hbind {other : ColumnKey} (hnew : s.head?.bind (·.lookup other) = none) (fresh : Expr) :
      (s.bind other fresh).binding? level key = some e := by
    rw [Scopes.binding?_bind hnew, if_neg, h]
    rintro ⟨htop, rfl⟩
    cases s with
    | nil => cases htop
    | cons innermost outer =>
      have hlast : level = outer.length := by simpa using htop
      rw [Scopes.binding?_cons, if_pos hlast] at h
      exact absurd (hnew.symm.trans h) (by simp)
  cases step with
  | push part flat =>
    rw [scopesAfter, Scopes.binding?_cons, if_neg (Nat.ne_of_lt hlevel), h]
  | pop =>
    cases s with
    | nil => cases h
    | cons innermost outer =>
      have hout : level ≠ outer.length := Nat.ne_of_lt hlives
      rwa [Scopes.binding?_cons, if_neg hout] at h
  | column other fresh =>
    cases hfind : s.find? other with
    | some held => simpa [scopesAfter, hfind] using h
    | none => simpa [scopesAfter, hfind] using hbind (Scopes.head?_bind_eq_none hfind) fresh
  | currentColumn other fresh =>
    cases hnew : s.head?.bind (·.lookup other) with
    | some held => simpa [scopesAfter, hnew] using h
    | none => simpa [scopesAfter, hnew] using hbind hnew fresh
  | select | findColumn | withClause | setClause | setPart | append | inspect => exact h

/-- Without a step that binds past the enclosing frames, no key comes to be bound in two. -/
theorem unique_scopesAfter {s : Scopes} {step : Step} (h : s.Unique)
    (hstep : ∀ key fresh, step ≠ currentColumn key fresh) : (step.scopesAfter s).Unique := by
  cases step with
  | push part flat => exact h.push
  | pop => exact h.tail
  | column key fresh =>
    cases hfind : s.find? key with
    | some held => simpa [scopesAfter, hfind] using h
    | none => simpa [scopesAfter, hfind] using h.bind hfind fresh
  | currentColumn key fresh => exact absurd rfl (hstep key fresh)
  | select | findColumn | withClause | setClause | setPart | append | inspect => exact h

/-- A step that is not `withClause` does to the scopes what `scopesAfter` says. -/
theorem scopes_run {step : Step} (hstep : ∀ clause body, step ≠ withClause clause body)
    (stack : Stack) : (step.run stack).2.scopes = step.scopesAfter stack.scopes := by
  cases step with
  | push part flat => rfl
  | pop => cases stack <;> rfl
  | select e type node =>
    rw [run, conclude_snd]
    exact scopes_onCurrent (Frame.keepsColumns_select e type node) stack
  | column key fresh =>
    rw [run, conclude_snd, scopesAfter, ← column?_eq_find?, Stack.column]
    cases hfind : stack.column? key with
    | some held => rfl
    | none =>
      have hnew := Scopes.head?_bind_eq_none ((column?_eq_find? key stack).symm.trans hfind)
      simp [scopes_currentColumn, hnew]
  | currentColumn key fresh =>
    rw [run, conclude_snd]
    exact scopes_currentColumn key fresh stack
  | withClause clause body => exact absurd rfl (hstep clause body)
  | setClause clause =>
    rw [run, conclude_snd]
    exact scopes_onCurrent (fun frame ↦ rfl) stack
  | setPart part =>
    rw [run, conclude_snd]
    exact scopes_onCurrent (fun frame ↦ rfl) stack
  | append e type =>
    rw [run, conclude_snd]
    exact scopes_onCurrent (Frame.keepsColumns_appendUncached e type) stack
  | findColumn | inspect => rfl

/-! ### The moments of a run -/

/-- A step that was taken, its answer, and the stack after it. -/
structure Moment where
  step : Step
  answer : Answer
  after : Stack

mutual

/-- The moments inside a step. -/
def inner : Step → Answer → List Moment
  | withClause _ body, .run answers => record body answers
  | _, _ => []
  termination_by structural step => step

/-- The moments of steps taken one after the other. What is inside a step comes before the step
itself. -/
def record : List Step → List (Answer × Stack) → List Moment
  | step :: rest, (answer, after) :: answers =>
    step.inner answer ++ ⟨step, answer, after⟩ :: record rest answers
  | _, _ => []
  termination_by structural steps => steps

end

/-- The moments of a run that starts without frames. -/
def history (steps : List Step) : List Moment :=
  record steps (runAll steps []).1

/-- A moment that follows scopes: they become what the step makes of them, and a column is answered
from the innermost frame that binds it, or else with the new expression. -/
structure Moment.Follows (before : Scopes) (m : Moment) : Prop where
  scopes_eq : m.after.scopes = m.step.scopesAfter before
  answer_eq : ∀ key fresh, m.step = column key fresh → before ≠ [] →
    m.answer = .column ((before.find? key).getD fresh) (before.find? key).isNone

/-- Moments that follow one another, from scopes at the start to scopes at the end. -/
inductive Leads : Scopes → List Moment → Scopes → Prop
  | nil (s : Scopes) : Leads s [] s
  | cons {before last : Scopes} {m : Moment} {rest : List Moment} (h : m.Follows before)
    (hrest : Leads m.after.scopes rest last) : Leads before (m :: rest) last

theorem Leads.append {first middle last : Scopes} {ms rest : List Moment}
    (h : Leads first ms middle) (hrest : Leads middle rest last) :
    Leads first (ms ++ rest) last := by
  induction h with
  | nil s => exact hrest
  | cons hm _ ih => exact .cons hm (ih hrest)

theorem Leads.of_append {first last : Scopes} {ms rest : List Moment}
    (h : Leads first (ms ++ rest) last) :
    ∃ middle, Leads first ms middle ∧ Leads middle rest last := by
  induction ms generalizing first with
  | nil => exact ⟨first, .nil first, h⟩
  | cons m ms ih =>
    cases h with
    | cons hm hrest =>
      obtain ⟨middle, hms, hrest⟩ := ih hrest
      exact ⟨middle, .cons hm hms, hrest⟩

/-- A stretch of moments follows the moment before it. -/
theorem Leads.of_infix {first last : Scopes} {ms stretch : List Moment} {m : Moment}
    (h : Leads first ms last) (hstretch : m :: stretch <:+: ms) :
    ∃ last, Leads m.after.scopes stretch last := by
  obtain ⟨earlier, later, rfl⟩ := hstretch
  rw [List.append_assoc] at h
  obtain ⟨middle, -, hrest⟩ := h.of_append
  cases hrest with
  | cons hm hrest =>
    obtain ⟨last, hstretch, -⟩ := hrest.of_append
    exact ⟨last, hstretch⟩

/-- What every moment keeps holds before and after each of them. -/
theorem Leads.exists_follows {p : Scopes → Prop} {first last : Scopes} {ms : List Moment}
    (h : Leads first ms last) (hfirst : p first)
    (hkeeps : ∀ before, ∀ m ∈ ms, m.Follows before → p before → p m.after.scopes) :
    ∀ m ∈ ms, ∃ before, m.Follows before ∧ p before ∧ p m.after.scopes := by
  induction h with
  | nil s => simp
  | @cons before last m rest hm hrest ih =>
    have hafter := hkeeps before m List.mem_cons_self hm hfirst
    have hrest := ih hafter fun before m' hm' ↦ hkeeps before m' (List.mem_cons_of_mem m hm')
    intro m' hm'
    rcases List.mem_cons.mp hm' with rfl | hmem
    · exact ⟨before, hm, hfirst, hafter⟩
    · exact hrest m' hmem

/-- A step that is not `withClause` is a moment that follows the scopes before it. -/
theorem follows_run {step : Step} (hstep : ∀ clause body, step ≠ withClause clause body)
    (stack : Stack) :
    Moment.Follows stack.scopes ⟨step, (step.run stack).1, (step.run stack).2⟩ where
  scopes_eq := scopes_run hstep stack
  answer_eq key fresh hcolumn hframes := by
    obtain rfl : step = column key fresh := hcolumn
    rw [run, Stack.column, ← column?_eq_find?]
    cases hfind : stack.column? key with
    | some held => rfl
    | none =>
      cases stack with
      | nil => exact absurd rfl hframes
      | cons frame outer =>
        rw [column?_cons, Option.or_eq_none_iff] at hfind
        simp [Stack.currentColumn, onCurrent, Frame.column, hfind.1, conclude]

mutual

theorem leads_inner : ∀ (step : Step) (stack : Stack), ∃ before,
    Leads stack.scopes (step.inner (step.run stack).1) before ∧
      Moment.Follows before ⟨step, (step.run stack).1, (step.run stack).2⟩
  | withClause clause body, [] => ⟨_, .nil _, rfl, fun _ _ ↦ Step.noConfusion⟩
  | withClause clause body, frame :: outer => by
    have hbody := leads_record body ({ frame with clause := clause } :: outer)
    refine ⟨_, hbody, ?_, fun _ _ ↦ Step.noConfusion⟩
    exact scopes_setClause frame.clause _
  | push _ _, stack | pop, stack | select _ _ _, stack | column _ _, stack
  | currentColumn _ _, stack | findColumn _, stack | setClause _, stack | setPart _, stack
  | append _ _, stack | inspect, stack =>
    ⟨_, .nil _, follows_run (fun _ _ ↦ Step.noConfusion) stack⟩
  termination_by structural step => step

/-- The moments of a run lead from the scopes at its start to those at its end. -/
theorem leads_record : ∀ (steps : List Step) (stack : Stack),
    Leads stack.scopes (record steps (runAll steps stack).1) (runAll steps stack).2.scopes
  | [], stack => .nil _
  | step :: rest, stack => by
    obtain ⟨before, hinner, hstep⟩ := leads_inner step stack
    rw [runAll_cons, record]
    exact hinner.append (.cons hstep (leads_record rest _))
  termination_by structural steps => steps

end

/-- How a column is resolved at a moment that follows scopes with a frame. -/
inductive Moment.Resolves (key : ColumnKey) (fresh : Expr) (before : Scopes) (m : Moment) : Prop
  /-- The answer is what the innermost of the frames with the key binds, and no binding changes. -/
  | found (level : Nat) (e : Expr) (hbound : before.binding? level key = some e)
    (hinner : ∀ inner, level < inner → before.binding? inner key = none)
    (hanswer : m.answer = .column e false) (hafter : m.after.scopes = before)
  /-- No frame binds the key. The answer is the new expression, and this is the only new binding, in
  the innermost frame. -/
  | created (hnone : ∀ level, before.binding? level key = none)
    (hanswer : m.answer = .column fresh true) (hlength : m.after.length = before.length)
    (hafter : ∀ level other, m.after.scopes.binding? level other =
      if level + 1 = before.length ∧ other = key then some fresh else before.binding? level other)

theorem Moment.Follows.resolves {before : Scopes} {m : Moment} (h : m.Follows before)
    {key : ColumnKey} {fresh : Expr} (hstep : m.step = column key fresh) (hframes : before ≠ []) :
    m.Resolves key fresh before := by
  have hscopes := h.scopes_eq
  have hanswer := h.answer_eq key fresh hstep hframes
  rw [hstep, scopesAfter] at hscopes
  cases hfind : before.find? key with
  | some e =>
    obtain ⟨level, hbound, hinner⟩ := Scopes.exists_binding?_of_find? hfind
    simp only [hfind, Option.isSome_some, if_true] at hscopes
    exact .found level e hbound hinner (by simpa [hfind] using hanswer) hscopes
  | none =>
    simp only [hfind, Option.isSome_none, Bool.false_eq_true, if_false] at hscopes
    refine .created (Scopes.binding?_eq_none_of_find? hfind) (by simpa [hfind] using hanswer) ?_ ?_
    · rw [← length_scopes, hscopes, Scopes.length_bind]
    · rw [hscopes]
      exact Scopes.binding?_bind (Scopes.head?_bind_eq_none hfind) fresh

/-- Moments of a run, one right after the other, during which the frame that has `level` frames
around it at the first of them is not ended: there are always that many frames and one more. -/
structure Lasts (steps : List Step) (level : Nat) (m : Moment) (stretch : List Moment) : Prop where
  consecutive : m :: stretch <:+: history steps
  lives : ∀ later ∈ stretch, level < later.after.length

section

variable {before first last : Scopes} {m : Moment} {ms : List Moment} {level : Nat}
  {key : ColumnKey} {e fresh : Expr}

theorem Moment.Follows.binding?_eq (h : m.Follows before)
    (hbound : before.binding? level key = some e) (hlives : level < m.after.length) :
    m.after.scopes.binding? level key = some e := by
  rw [← length_scopes, h.scopes_eq] at hlives
  rw [h.scopes_eq]
  exact m.step.binding?_scopesAfter hbound hlives

theorem Moment.Follows.unique (h : m.Follows before) (hunique : before.Unique)
    (hstep : ∀ key fresh, m.step ≠ currentColumn key fresh) : m.after.scopes.Unique := by
  rw [h.scopes_eq]
  exact unique_scopesAfter hunique hstep

/-- While a frame lasts, its bindings do. -/
theorem Leads.binding?_eq (h : Leads first ms last) (hbound : first.binding? level key = some e)
    (hlives : ∀ m ∈ ms, level < m.after.length) (hm : m ∈ ms) :
    m.after.scopes.binding? level key = some e := by
  obtain ⟨-, -, -, hafter⟩ := h.exists_follows hbound
    (fun _ m hm hfollows hbefore ↦ hfollows.binding?_eq hbefore (hlives m hm)) m hm
  exact hafter

/-- Without steps that bind past the enclosing frames, no key comes to be bound in two frames. -/
theorem Leads.unique (h : Leads first ms last) (hfirst : first.Unique)
    (hsteps : ∀ m ∈ ms, ∀ key fresh, m.step ≠ currentColumn key fresh) (hm : m ∈ ms) :
    m.after.scopes.Unique := by
  obtain ⟨-, -, -, hafter⟩ := h.exists_follows hfirst
    (fun _ m hm hfollows hbefore ↦ hfollows.unique hbefore (hsteps m hm)) m hm
  exact hafter

/-- While the one frame that binds a key lasts, the key is resolved to what is bound there. -/
theorem Leads.answer_eq (h : Leads first ms last) (hfirst : first.Unique)
    (hsteps : ∀ m ∈ ms, ∀ key fresh, m.step ≠ currentColumn key fresh)
    (hbound : first.binding? level key = some e) (hlives : ∀ m ∈ ms, level < m.after.length)
    (hm : m ∈ ms) (hstep : m.step = column key fresh) : m.answer = .column e false := by
  obtain ⟨before, hfollows, ⟨hunique, hbefore⟩, -⟩ :=
    h.exists_follows (p := fun s ↦ s.Unique ∧ s.binding? level key = some e) ⟨hfirst, hbound⟩
      (fun _ m hm hfollows hbefore ↦ ⟨hfollows.unique hbefore.1 (hsteps m hm),
        hfollows.binding?_eq hbefore.2 (hlives m hm)⟩) m hm
  have hframes : before ≠ [] := by
    rintro rfl
    cases hbefore
  rw [hfollows.answer_eq key fresh hstep hframes, hunique.find?_eq hbefore]
  rfl

end

/-- The columns that frames remember are nested scopes, at every moment of every run.

A binding never changes while its frame lasts. A column that is resolved when there is a frame is
answered from the innermost frame that binds it; only if no frame does is the new expression taken,
and then it is bound in the innermost frame and nowhere else. If no step of the run binds a column
in the innermost frame past the others, then no key is ever bound in two frames, so as long as the
frame that binds a key lasts, the key is answered with the expression bound there, whatever frames
come and go meanwhile. -/
theorem columns_scoped (steps : List Step) :
    (∀ level m stretch, Lasts steps level m stretch → ∀ key e,
      m.after.scopes.binding? level key = some e →
      ∀ later ∈ stretch, later.after.scopes.binding? level key = some e) ∧
    (∀ m later, [m, later] <:+: history steps → m.after ≠ [] →
      ∀ key fresh, later.step = column key fresh → later.Resolves key fresh m.after.scopes) ∧
    ((∀ m ∈ history steps, ∀ key fresh, m.step ≠ currentColumn key fresh) →
      (∀ m ∈ history steps, m.after.scopes.Unique) ∧
      ∀ level m stretch, Lasts steps level m stretch → ∀ key e,
        m.after.scopes.binding? level key = some e →
        ∀ later ∈ stretch, ∀ fresh, later.step = column key fresh →
          later.answer = .column e false) := by
  have hleads : Leads [] (history steps) (runAll steps []).2.scopes := leads_record steps []
  refine ⟨?_, ?_, fun hsteps ↦ ?_⟩
  · intro level m stretch hlasts key e hbound later hlater
    obtain ⟨last, hstretch⟩ := hleads.of_infix hlasts.consecutive
    exact hstretch.binding?_eq hbound hlasts.lives hlater
  · intro m later hnext hframes key fresh hstep
    obtain ⟨last, hstretch⟩ := hleads.of_infix hnext
    cases hstretch with
    | cons hlater _ =>
      refine hlater.resolves hstep ?_
      simpa [scopes] using hframes
  · have hempty : Scopes.Unique [] := fun _ _ _ _ _ h ↦ nomatch h
    have hunique : ∀ m ∈ history steps, m.after.scopes.Unique :=
      fun m hm ↦ hleads.unique hempty hsteps hm
    refine ⟨hunique, ?_⟩
    intro level m stretch hlasts key e hbound later hlater fresh hstep
    obtain ⟨last, hstretch⟩ := hleads.of_infix hlasts.consecutive
    have hin : ∀ other ∈ m :: stretch, other ∈ history steps :=
      fun other hother ↦ hlasts.consecutive.subset hother
    exact hstretch.answer_eq (hunique m (hin m List.mem_cons_self))
      (fun other hother ↦ hsteps other (hin other (List.mem_cons_of_mem m hother))) hbound
      hlasts.lives hlater hstep

/-- The key that `correlated` asks for. -/
def personId : ColumnKey :=
  ⟨"p", "id"⟩

/-- A block asks for a column and then, in the middle of its work, waits for another block that asks
for a column of the same key. Afterwards it asks again itself. -/
def correlated : List Step :=
  [push emptyBlock true, column personId (.parameter 1),
    withClause .condition [push emptyBlock true, column personId (.parameter 2), pop],
    column personId (.parameter 3)]

theorem correlated_scoped :
    (history correlated).map Moment.step = [push emptyBlock true, column personId (.parameter 1),
      push emptyBlock true, column personId (.parameter 2), pop,
      withClause .condition [push emptyBlock true, column personId (.parameter 2), pop],
      column personId (.parameter 3)] ∧
    (∀ m ∈ history correlated, m.after.scopes.Unique) ∧
    ∃ m, (history correlated)[1]? = some m ∧
      Lasts correlated 0 m ((history correlated).drop 2) ∧
      ∀ later ∈ (history correlated).drop 2, ∀ fresh, later.step = column personId fresh →
        later.answer = .column (.parameter 1) false := by
  have hhistory : (history correlated).map Moment.step = [push emptyBlock true,
      column personId (.parameter 1), push emptyBlock true, column personId (.parameter 2), pop,
      withClause .condition [push emptyBlock true, column personId (.parameter 2), pop],
      column personId (.parameter 3)] := rfl
  have hsteps : ∀ m ∈ history correlated, ∀ key fresh, m.step ≠ currentColumn key fresh := by
    intro m hm key fresh hstep
    have hmem := List.mem_map_of_mem (f := Moment.step) hm
    rw [hhistory, hstep] at hmem
    simp at hmem
  obtain ⟨hunique, hanswers⟩ := (columns_scoped correlated).2.2 hsteps
  have hlasts : Lasts correlated 0 ((history correlated).get ⟨1, by decide⟩)
      ((history correlated).drop 2) :=
    ⟨⟨(history correlated).take 1, [], rfl⟩, by decide⟩
  exact ⟨hhistory, hunique, _, rfl, hlasts,
    hanswers 0 _ _ hlasts personId (.parameter 1) rfl⟩

end Step

end Stack

end ObjectSelect
