import Mathlib.Data.List.Forall2
import ObjectSelect.Expr.Render
import ObjectSelect.Proofs.Equality
import ObjectSelect.Proofs.Resolver

/-!
# The text of shared selections

A request that repeats an earlier one is given the selection of the earlier one, which has the same
expression but is written as that one was. The same expressions can differ in the signs of zeros,
and nothing else, and a zero is written with its sign. So two of them have one text only when they
are equal as terms (`Expr.render_eq_iff`), and a selection is written as what was asked for just
when the expression of the demand that it was made for is the very same term
(`Frame.render_answer_iff`).

That no other difference hides in a text, however deep the zeros are, holds because the texts are
read from the left: expressions that are the same up to the signs of zeros can be told apart by how
a text begins (`Legible`).
-/

set_option autoImplicit false
set_option relaxedAutoImplicit false

namespace ObjectSelect

/-! ### Reading a text from the left -/

/-- Of all that agrees with `a` in `key`, only `a` itself is written at the beginning of a text that
begins with the text of `a`, and what follows is the same as well. -/
def Legible {α β : Type} (write : α → String) (key : α → β) (a : α) : Prop :=
  ∀ ⦃b : α⦄ ⦃x y : List Char⦄, key a = key b →
    (write a).toList ++ x = (write b).toList ++ y → a = b ∧ x = y

section

variable {α β : Type} {write : α → String} {key : α → β}

/-- What is equal as soon as the keys are equal is legible. -/
theorem legible_of_injective {a : α} (h : ∀ b, key a = key b → a = b) : Legible write key a := by
  intro b x y hkey htext
  obtain rfl := h b hkey
  exact ⟨rfl, List.append_cancel_left htext⟩

theorem Legible.eq_of_write {a b : α} (h : Legible write key a) (hkey : key a = key b)
    (htext : write a = write b) : a = b :=
  (h hkey (congrArg (fun text : String ↦ text.toList ++ []) htext)).1

theorem toList_intercalate_cons_cons (first second : String) (rest : List String) :
    (",".intercalate (first :: second :: rest)).toList =
      first.toList ++ ',' :: (",".intercalate (second :: rest)).toList := by
  simp [String.toList_intercalate, List.intercalate]

/-- Legible things, separated by commas, are legible together. -/
theorem legible_intercalate {items : List α} (h : ∀ a ∈ items, Legible write key a) :
    Legible (fun as ↦ ",".intercalate (as.map write)) (List.map key) items := by
  induction items with
  | nil => exact legible_of_injective fun others hkeys ↦ (List.map_eq_nil_iff.mp hkeys.symm).symm
  | cons a rest ih =>
    obtain ⟨ha, hrest⟩ := List.forall_mem_cons.mp h
    intro others x y hkeys htexts
    obtain ⟨b, others, rfl, hkey, hothers⟩ := List.map_eq_cons_iff.mp hkeys.symm
    cases rest with
    | nil =>
      obtain rfl := List.map_eq_nil_iff.mp hothers
      obtain ⟨rfl, rfl⟩ := ha hkey.symm (by simpa using htexts)
      exact ⟨rfl, rfl⟩
    | cons a' rest =>
      obtain ⟨b', others, rfl, -, -⟩ := List.map_eq_cons_iff.mp hothers
      simp only [List.map_cons, toList_intercalate_cons_cons, List.append_assoc] at htexts
      obtain ⟨rfl, htail⟩ := ha hkey.symm htexts
      obtain ⟨heq, rfl⟩ := ih hrest hothers.symm (List.cons.inj htail).2
      exact ⟨congrArg (a :: ·) heq, rfl⟩

end

/-! ### The text of a zero -/

namespace Double

theorem fields_of_isZero {x : Double} (hx : x.isZero = true) :
    exponentField x.bits = 0 ∧ fractionField x.bits = 0 := by
  obtain ⟨hexponent, hfraction⟩ := Bool.and_eq_true_iff.mp hx
  exact ⟨of_decide_eq_true hexponent, of_decide_eq_true hfraction⟩

theorem toNat_bits_of_isZero {x : Double} (hx : x.isZero = true) :
    x.bits.toNat = 0 ∨ x.bits.toNat = Nat.pow 2 63 := by
  have hfields := fields_of_isZero hx
  have hlt := x.bits.toNat_lt
  simp only [exponentField, fractionField, Nat.pow_eq, Nat.reducePow] at hfields hlt ⊢
  omega

/-- Zeros of the same sign are one. -/
theorem eq_of_isZero {x y : Double} (hx : x.isZero = true) (hy : y.isZero = true)
    (h : x.isNegative = y.isNegative) : x = y := by
  have hbits : x.bits.toNat = y.bits.toNat := by
    rcases toNat_bits_of_isZero hx with hx | hx <;> rcases toNat_bits_of_isZero hy with hy | hy <;>
      simp [isNegative, hx, hy] at h ⊢
  cases x
  cases y
  simpa using UInt64.toNat_inj.mp hbits

theorem toList_render_of_isZero {x : Double} (hx : x.isZero = true) :
    x.render.toList = if x.isNegative then ['-', '0'] else ['0'] := by
  have hfinite : x.isInfinite = false := by simp [isInfinite, (fields_of_isZero hx).1]
  rw [render, magnitude, hfinite, hx, String.toList_ofList]
  rfl

theorem legible (x : Double) : Legible render unsigned x := by
  intro y cs ds hkey htext
  cases hx : x.isZero with
  | false =>
    have hy : y.isZero = false := by rw [← isZero_unsigned y, ← hkey, isZero_unsigned, hx]
    rw [unsigned_of_not_isZero hx, unsigned_of_not_isZero hy] at hkey
    subst hkey
    exact ⟨rfl, List.append_cancel_left htext⟩
  | true =>
    have hy : y.isZero = true := by rw [← isZero_unsigned y, ← hkey, isZero_unsigned, hx]
    -- The first character of the text of a zero is its sign or the digit.
    rw [toList_render_of_isZero hx, toList_render_of_isZero hy] at htext
    have hsign : x.isNegative = y.isNegative := by
      cases hnx : x.isNegative <;> cases hny : y.isNegative <;> simp [hnx, hny] at htext ⊢
    rw [hsign] at htext
    exact ⟨eq_of_isZero hx hy hsign, List.append_cancel_left htext⟩

end Double

theorem Literal.legible (v : Literal) : Legible render unsigned v := by
  cases v with
  | float value =>
    intro w x y hkey htext
    cases w with
    | float other =>
      obtain ⟨rfl, rfl⟩ := value.legible (float.inj hkey) htext
      exact ⟨rfl, rfl⟩
    | string | int | bool | null => simp [unsigned] at hkey
  | string | int | bool | null =>
    refine legible_of_injective fun w hkey ↦ ?_
    cases w <;> simp_all [unsigned]

/-! ### The text of an expression -/

theorem Expr.renderAll_eq_map (es : List Expr) : renderAll es = es.map render := by
  induction es with
  | nil => rfl
  | cons e rest ih => rw [renderAll, ih, List.map_cons]

theorem Expr.unsignedAll_eq_map (es : List Expr) : unsignedAll es = es.map unsigned := by
  induction es with
  | nil => rfl
  | cons e rest ih => rw [unsignedAll, ih, List.map_cons]

theorem Selection.renderAll_eq_map (ss : List Selection) : renderAll ss = ss.map render := by
  induction ss with
  | nil => rfl
  | cons s rest ih => rw [renderAll, ih, List.map_cons]

theorem Selection.unsignedAll_eq_map (ss : List Selection) : unsignedAll ss = ss.map unsigned := by
  induction ss with
  | nil => rfl
  | cons s rest ih => rw [unsignedAll, ih, List.map_cons]

mutual

theorem Expr.legible : ∀ e : Expr, Legible Expr.render Expr.unsigned e
  | .column c => legible_of_injective fun e hkey ↦ by
    cases e <;> simp_all [Expr.unsigned]
  | .parameter n => legible_of_injective fun e hkey ↦ by
    cases e <;> simp_all [Expr.unsigned]
  | .literal v => by
    intro e x y hkey htext
    cases e with
    | literal w =>
      obtain ⟨rfl, rfl⟩ := v.legible (Expr.literal.inj hkey) htext
      exact ⟨rfl, rfl⟩
    | column | parameter | function | subquery => simp [Expr.unsigned] at hkey
  | .function name arguments => by
    intro e x y hkey htext
    cases e with
    | function name' arguments' =>
      simp only [Expr.unsigned, Expr.unsignedAll_eq_map, Expr.function.injEq] at hkey
      obtain ⟨rfl, harguments⟩ := hkey
      simp only [Expr.render, Expr.renderAll_eq_map, String.toList_append, List.append_assoc,
        List.append_cancel_left_eq] at htext
      obtain ⟨rfl, htail⟩ :=
        legible_intercalate (Expr.legible_of_mem arguments) harguments htext
      exact ⟨rfl, List.append_cancel_left htail⟩
    | column | parameter | literal | subquery => simp [Expr.unsigned] at hkey
  | .subquery spec => by
    intro e x y hkey htext
    cases e with
    | subquery spec' =>
      simp only [Expr.render, String.toList_append, List.append_assoc,
        List.append_cancel_left_eq] at htext
      obtain ⟨rfl, htail⟩ := spec.legible (Expr.subquery.inj hkey) htext
      exact ⟨rfl, List.append_cancel_left htail⟩
    | column | parameter | literal | function => simp [Expr.unsigned] at hkey
  termination_by structural e => e

theorem Expr.legible_of_mem : ∀ es : List Expr, ∀ e ∈ es, Legible Expr.render Expr.unsigned e
  | [] => by simp
  | e :: rest => List.forall_mem_cons.mpr ⟨e.legible, Expr.legible_of_mem rest⟩
  termination_by structural es => es

theorem Selection.legible : ∀ s : Selection, Legible Selection.render Selection.unsigned s
  | ⟨position, ordinal, e, type⟩ => by
    intro s x y hkey htext
    obtain ⟨position', ordinal', e', type'⟩ := s
    obtain ⟨rfl, rfl, hexpr, rfl⟩ := Selection.mk.inj hkey
    obtain ⟨rfl, rfl⟩ := e.legible hexpr htext
    exact ⟨rfl, rfl⟩
  termination_by structural s => s

theorem Selection.legible_of_mem : ∀ ss : List Selection,
    ∀ s ∈ ss, Legible Selection.render Selection.unsigned s
  | [] => by simp
  | s :: rest => List.forall_mem_cons.mpr ⟨s.legible, Selection.legible_of_mem rest⟩
  termination_by structural ss => ss

theorem QuerySpec.legible : ∀ s : QuerySpec, Legible QuerySpec.render QuerySpec.unsigned s
  | ⟨distinct, selections, tables⟩ => by
    intro s x y hkey htext
    obtain ⟨distinct', selections', tables'⟩ := s
    obtain ⟨rfl, hselections, rfl⟩ := QuerySpec.mk.inj hkey
    rw [Selection.unsignedAll_eq_map, Selection.unsignedAll_eq_map] at hselections
    simp only [QuerySpec.render, Selection.renderAll_eq_map, String.toList_append,
      List.append_assoc, List.append_cancel_left_eq] at htext
    obtain ⟨rfl, htail⟩ :=
      legible_intercalate (Selection.legible_of_mem selections) hselections htext
    exact ⟨rfl, List.append_cancel_left htail⟩
  termination_by structural s => s

end

/-- Of the same expressions, only those that are equal as terms have the same text. -/
theorem Expr.render_eq_iff {e e' : Expr} (h : (e == e') = true) :
    e.render = e'.render ↔ e = e' :=
  ⟨e.legible.eq_of_write ((same_iff_unsigned e e').mp h), fun heq ↦ heq ▸ rfl⟩

theorem Selection.render_eq (s : Selection) : s.render = s.expr.render := by
  cases s
  rfl

namespace Frame

/-- When the text of a selection is the text of what was asked for. After any sequence of demands,
the next one is given a selection with the expression of the first demand that it repeats, or with
its own when it repeats none (`Demand.source`). The selection is for the same expression, and is
written as the demand's own expression just when it is for the very same term. -/
theorem render_answer_iff (spec : QuerySpec) (flat : Bool) (ds : List Demand) (d : Demand) :
    ∃ items frame item after,
      answerAll ds (start (.spec spec) flat) = .ok items frame ∧
      answer d frame = .ok item after ∧
      item.expr = (d.source flat ds).expr ∧ (item.expr == d.expr) = true ∧
      (item.render = d.expr.render ↔ (d.source flat ds).expr = d.expr) := by
  obtain ⟨part, cache, hanswers, hframe⟩ := (records_start spec flat).answerAll ds
  obtain ⟨part', cache', hanswer, -⟩ := hframe.answer d
  obtain ⟨position, hitem⟩ := Ledger.exists_answer_eq flat spec.count ds d
  have hsource := d.source_expr_beq flat ds
  refine ⟨_, _, _, _, hanswers, hanswer, by rw [hitem]; rfl, by rw [hitem]; exact hsource, ?_⟩
  rw [Selection.render_eq, hitem]
  exact Expr.render_eq_iff hsource

/-- A request for zero, or for negative zero. -/
def zeroDemand (negative : Bool) : Demand :=
  ⟨.literal (.float ⟨if negative then 0x8000000000000000 else 0, by cases negative <;> decide⟩),
    .float, none⟩

/-- A request for negative zero after one for zero is given a selection without the sign. -/
theorem negative_zero_unsigned : ∃ items frame item after,
    answerAll [zeroDemand false] (start (.spec (.ofTables [])) true) = .ok items frame ∧
    answer (zeroDemand true) frame = .ok item after ∧
    item.render = "0" ∧ (zeroDemand true).expr.render = "-0" :=
  have hzero : Selection.render ⟨0, 1, (zeroDemand false).expr, .float⟩ = "0" := by decide +kernel
  have hnegative : (zeroDemand true).expr.render = "-0" := by decide +kernel
  ⟨_, _, ⟨0, 1, (zeroDemand false).expr, .float⟩, _, rfl, rfl, hzero, hnegative⟩

end Frame

end ObjectSelect
