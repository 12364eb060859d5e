import ObjectSelect.Expr.Same

/-!
# Equality of expressions is an equivalence

Expressions that differ only in the sign of a zero are the same. Dropping the sign of every zero in
a term therefore turns `same` into equality of terms (`Expr.same_iff_unsigned`), and `==` on
constants, expressions, selections and query specifications is reflexive, symmetric and transitive.
-/

set_option autoImplicit false
set_option relaxedAutoImplicit false

namespace ObjectSelect

namespace Double

/-- The number with the sign of a zero dropped. -/
def unsigned (x : Double) : Double :=
  if x.isZero then ⟨0, by decide⟩ else x

theorem unsigned_of_isZero {x : Double} (hx : x.isZero = true) :
    x.unsigned = ⟨0, by decide⟩ := by
  simp [unsigned, hx]

theorem unsigned_of_not_isZero {x : Double} (hx : x.isZero = false) : x.unsigned = x := by
  simp [unsigned, hx]

@[simp]
theorem isZero_unsigned (x : Double) : x.unsigned.isZero = x.isZero := by
  cases hx : x.isZero with
  | false => rw [unsigned_of_not_isZero hx, hx]
  | true =>
    rw [unsigned_of_isZero hx]
    decide

theorem same_iff_unsigned (x y : Double) : x.same y = true ↔ x.unsigned = y.unsigned := by
  have hbits : x.bits = y.bits ↔ x = y := by
    cases x
    cases y
    simp
  simp only [same, Bool.or_eq_true, beq_iff_eq, Bool.and_eq_true, hbits]
  constructor
  · rintro (rfl | ⟨hx, hy⟩)
    · rfl
    · rw [unsigned_of_isZero hx, unsigned_of_isZero hy]
  · intro h
    have hzero : x.isZero = y.isZero := by rw [← isZero_unsigned x, h, isZero_unsigned]
    cases hx : x.isZero with
    | false =>
      rw [unsigned_of_not_isZero hx, unsigned_of_not_isZero (hzero ▸ hx)] at h
      exact Or.inl h
    | true => exact Or.inr ⟨rfl, hzero ▸ hx⟩

end Double

namespace Literal

/-- The constant with the sign of a zero dropped. -/
def unsigned : Literal → Literal
  | float value => float value.unsigned
  | other => other

theorem same_iff_unsigned (v w : Literal) : v.same w = true ↔ v.unsigned = w.unsigned := by
  have hfloat (x y : Double) : (x == y) = x.same y := rfl
  cases v <;> cases w <;> simp [same, unsigned, hfloat, Double.same_iff_unsigned]

end Literal

mutual

/-- The expression with the sign of every zero dropped. -/
def Expr.unsigned : Expr → Expr
  | .column reference => .column reference
  | .literal value => .literal value.unsigned
  | .parameter index => .parameter index
  | .function name arguments => .function name (Expr.unsignedAll arguments)
  | .subquery spec => .subquery spec.unsigned
  termination_by structural e => e

/-- The expressions with the sign of every zero dropped. -/
def Expr.unsignedAll : List Expr → List Expr
  | [] => []
  | e :: rest => e.unsigned :: Expr.unsignedAll rest
  termination_by structural es => es

/-- The selection with the sign of every zero dropped. -/
def Selection.unsigned : Selection → Selection
  | ⟨position, ordinal, e, type⟩ => ⟨position, ordinal, e.unsigned, type⟩
  termination_by structural s => s

/-- The selections with the sign of every zero dropped. -/
def Selection.unsignedAll : List Selection → List Selection
  | [] => []
  | s :: rest => s.unsigned :: Selection.unsignedAll rest
  termination_by structural ss => ss

/-- The query specification with the sign of every zero dropped. -/
def QuerySpec.unsigned : QuerySpec → QuerySpec
  | ⟨distinct, selections, tables⟩ => ⟨distinct, Selection.unsignedAll selections, tables⟩
  termination_by structural s => s

end

mutual

theorem Expr.same_iff_unsigned : ∀ a b : Expr, a.same b = true ↔ a.unsigned = b.unsigned
  | .column _, b => by cases b <;> simp [Expr.same, Expr.unsigned]
  | .literal v, b => by
    cases b with
    | literal w =>
      simp only [Expr.same, Expr.unsigned, Expr.literal.injEq]
      exact Literal.same_iff_unsigned v w
    | _ => simp [Expr.same, Expr.unsigned]
  | .parameter _, b => by cases b <;> simp [Expr.same, Expr.unsigned]
  | .function _ as, b => by
    cases b with
    | function _ bs => simp [Expr.same, Expr.unsigned, Expr.sameAll_iff_unsigned as bs]
    | _ => simp [Expr.same, Expr.unsigned]
  | .subquery s, b => by
    cases b with
    | subquery t => simp [Expr.same, Expr.unsigned, QuerySpec.same_iff_unsigned s t]
    | _ => simp [Expr.same, Expr.unsigned]
  termination_by structural a => a

theorem Expr.sameAll_iff_unsigned : ∀ as bs : List Expr,
    Expr.sameAll as bs = true ↔ Expr.unsignedAll as = Expr.unsignedAll bs
  | [], bs => by cases bs <;> simp [Expr.sameAll, Expr.unsignedAll]
  | _ :: _, [] => by simp [Expr.sameAll, Expr.unsignedAll]
  | a :: as, b :: bs => by
    simp [Expr.sameAll, Expr.unsignedAll, Expr.same_iff_unsigned a b,
      Expr.sameAll_iff_unsigned as bs]
  termination_by structural as => as

theorem Selection.same_iff_unsigned : ∀ s t : Selection,
    s.same t = true ↔ s.unsigned = t.unsigned
  | ⟨_, _, e, _⟩, ⟨_, _, e', _⟩ => by
    simp [Selection.same, Selection.unsigned, Expr.same_iff_unsigned e e', and_assoc]
  termination_by structural s => s

theorem Selection.sameAll_iff_unsigned : ∀ ss ts : List Selection,
    Selection.sameAll ss ts = true ↔ Selection.unsignedAll ss = Selection.unsignedAll ts
  | [], ts => by cases ts <;> simp [Selection.sameAll, Selection.unsignedAll]
  | _ :: _, [] => by simp [Selection.sameAll, Selection.unsignedAll]
  | s :: ss, t :: ts => by
    simp [Selection.sameAll, Selection.unsignedAll, Selection.same_iff_unsigned s t,
      Selection.sameAll_iff_unsigned ss ts]
  termination_by structural ss => ss

theorem QuerySpec.same_iff_unsigned : ∀ s t : QuerySpec,
    s.same t = true ↔ s.unsigned = t.unsigned
  | ⟨_, ss, _⟩, ⟨_, ts, _⟩ => by
    simp [QuerySpec.same, QuerySpec.unsigned, Selection.sameAll_iff_unsigned ss ts, and_assoc]
  termination_by structural s => s

end

instance : EquivBEq Expr where
  rfl {a} := (Expr.same_iff_unsigned a a).mpr rfl
  symm {a b} h := (Expr.same_iff_unsigned b a).mpr ((Expr.same_iff_unsigned a b).mp h).symm
  trans {a b c} hab hbc := (Expr.same_iff_unsigned a c).mpr
    (((Expr.same_iff_unsigned a b).mp hab).trans ((Expr.same_iff_unsigned b c).mp hbc))

instance : EquivBEq QuerySpec where
  rfl {s} := (QuerySpec.same_iff_unsigned s s).mpr rfl
  symm {s t} h := (QuerySpec.same_iff_unsigned t s).mpr
    ((QuerySpec.same_iff_unsigned s t).mp h).symm
  trans {r s t} hrs hst := (QuerySpec.same_iff_unsigned r t).mpr
    (((QuerySpec.same_iff_unsigned r s).mp hrs).trans ((QuerySpec.same_iff_unsigned s t).mp hst))

/-- A column is the same as no other expression. -/
theorem Expr.beq_column_iff (e : Expr) (c : Column) : (e == .column c) = true ↔ e = .column c := by
  change e.same (.column c) = true ↔ _
  cases e <;> simp [Expr.same]

/-- A query specification is the same as query specifications only. -/
theorem Expr.beq_subquery_iff (e : Expr) (spec : QuerySpec) :
    (e == .subquery spec) = true ↔ ∃ other, e = .subquery other ∧ (other == spec) = true := by
  change e.same (.subquery spec) = true ↔ _
  cases e with
  | subquery other =>
    simp only [Expr.same, Expr.subquery.injEq, exists_eq_left']
    exact Iff.rfl
  | _ => simp [Expr.same]

theorem Selection.expr_beq_of_same {item other : Selection} (h : item.same other = true) :
    (item.expr == other.expr) = true := by
  obtain ⟨position, ordinal, e, type⟩ := item
  obtain ⟨position', ordinal', e', type'⟩ := other
  simp only [same, Bool.and_eq_true] at h
  exact h.1.2

theorem Selection.exists_expr_of_sameAll {items others : List Selection}
    (h : sameAll items others = true) {item : Selection} (hitem : item ∈ items) :
    ∃ other ∈ others, (item.expr == other.expr) = true := by
  induction items generalizing others with
  | nil => cases hitem
  | cons first items ih =>
    cases others with
    | nil => cases h
    | cons other rest =>
      rw [sameAll, Bool.and_eq_true] at h
      rcases List.mem_cons.mp hitem with rfl | hitem
      · exact ⟨other, List.mem_cons_self, expr_beq_of_same h.1⟩
      · obtain ⟨found, hfound, hexpr⟩ := ih h.2 hitem
        exact ⟨found, List.mem_cons_of_mem _ hfound, hexpr⟩

/-- Query specifications that are the same have the same tables and select the same expressions. -/
theorem QuerySpec.tables_and_exprs_of_beq {spec other : QuerySpec} (h : (spec == other) = true) :
    spec.tables = other.tables ∧ ∀ item ∈ spec.selections,
      ∃ item' ∈ other.selections, (item.expr == item'.expr) = true := by
  obtain ⟨distinct, items, tables⟩ := spec
  obtain ⟨distinct', items', tables'⟩ := other
  change same _ _ = true at h
  simp only [same, Bool.and_eq_true, beq_iff_eq] at h
  exact ⟨h.2, fun item hitem ↦ Selection.exists_expr_of_sameAll h.1.2 hitem⟩

end ObjectSelect
