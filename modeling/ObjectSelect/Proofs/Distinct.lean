import Mathlib.Data.List.Induction

/-!
# First occurrences

Of the elements of a list that agree under `f`, `List.eraseDupsBy` with the test
`fun later earlier ↦ f earlier == f later` keeps the first. `eraseDupsBy_append_singleton` says what
one more element at the end adds, and the other facts follow from it by induction from the right.
-/

set_option autoImplicit false
set_option relaxedAutoImplicit false

namespace ObjectSelect

variable {α β γ : Type} [BEq β] [EquivBEq β]

/-- One more element is kept unless it agrees with one before it. -/
theorem eraseDupsBy_append_singleton (f : α → β) (xs : List α) (x : α) :
    (xs ++ [x]).eraseDupsBy (fun later earlier ↦ f earlier == f later) =
      xs.eraseDupsBy (fun later earlier ↦ f earlier == f later) ++
        if xs.any (f · == f x) then [] else [x] := by
  match xs with
  | [] => simp [List.eraseDupsBy_cons]
  | a :: rest =>
    have ih := eraseDupsBy_append_singleton f (rest.filter fun b ↦ !(f a == f b)) x
    simp only [List.cons_append, List.eraseDupsBy_cons, List.filter_append, List.any_cons,
      Bool.decide_eq_false]
    by_cases hx : f a == f x
    · simp [hx]
    · have hany : (rest.filter fun b ↦ !(f a == f b)).any (f · == f x) =
          rest.any (f · == f x) := by
        rw [List.any_filter]
        congr 1
        funext b
        by_cases hb : f b == f x
        · have hab : (f a == f b) = false := by
            rw [BEq.congr_right hb]
            simpa using hx
          simp [hb, hab]
        · simp [hb]
      simp [hx, ih, hany]
  termination_by xs.length
  decreasing_by
    have := List.length_filter_le (fun b ↦ !(f a == f b)) rest
    simp
    omega

theorem eraseDups_eq_eraseDupsBy (xs : List β) :
    xs.eraseDups = xs.eraseDupsBy fun later earlier ↦ earlier == later := by
  rw [List.eraseDups]
  congr 1
  funext later earlier
  exact BEq.comm

/-- A list with one more element has one more distinct element, unless it had an equal one. -/
theorem eraseDups_append_singleton (xs : List β) (x : β) :
    (xs ++ [x]).eraseDups = xs.eraseDups ++ if xs.any (· == x) then [] else [x] := by
  rw [eraseDups_eq_eraseDupsBy, eraseDups_eq_eraseDupsBy]
  exact eraseDupsBy_append_singleton (fun b ↦ b) xs x

theorem any_eraseDupsBy (f : α → β) (xs : List α) (b : β) :
    (xs.eraseDupsBy fun later earlier ↦ f earlier == f later).any (f · == b) =
      xs.any (f · == b) := by
  induction xs using List.reverseRecOn with
  | nil => rfl
  | append_singleton xs x ih =>
    rw [eraseDupsBy_append_singleton, List.any_append, List.any_append, ih]
    cases hany : xs.any (f · == f x) with
    | false => simp
    | true =>
      obtain ⟨earlier, hmem, hearlier⟩ := List.any_eq_true.mp hany
      by_cases hx : f x == b
      · have : xs.any (f · == b) = true :=
          List.any_eq_true.mpr ⟨earlier, hmem, BEq.trans hearlier hx⟩
        simp [this]
      · simp [hx]

/-- No two of the elements kept agree. -/
theorem pairwise_eraseDupsBy (f : α → β) (xs : List α) :
    (xs.eraseDupsBy fun later earlier ↦ f earlier == f later).Pairwise
      fun earlier later ↦ (f earlier == f later) = false := by
  induction xs using List.reverseRecOn with
  | nil => exact .nil
  | append_singleton xs x ih =>
    rw [eraseDupsBy_append_singleton]
    cases hany : xs.any (f · == f x) with
    | true => simpa using ih
    | false =>
      rw [← any_eraseDupsBy] at hany
      refine List.pairwise_append.mpr ⟨ih, by simp, ?_⟩
      simpa using hany

theorem length_eraseDupsBy_le (f : α → β) (xs : List α) :
    (xs.eraseDupsBy fun later earlier ↦ f earlier == f later).length ≤ xs.length := by
  induction xs using List.reverseRecOn with
  | nil => exact Nat.le_refl 0
  | append_singleton xs x ih =>
    rw [eraseDupsBy_append_singleton, List.length_append, List.length_append]
    split <;> simp <;> omega

/-- What agrees is the same before and after a map, so it does not matter which comes first. -/
theorem map_eraseDupsBy (f : γ → β) (g : α → γ) (xs : List α) :
    (xs.eraseDupsBy fun later earlier ↦ f (g earlier) == f (g later)).map g =
      (xs.map g).eraseDupsBy fun later earlier ↦ f earlier == f later := by
  induction xs using List.reverseRecOn with
  | nil => rfl
  | append_singleton xs x ih =>
    rw [eraseDupsBy_append_singleton (fun a ↦ f (g a)), List.map_append, ih, List.map_append,
      List.map_singleton, eraseDupsBy_append_singleton, List.any_map]
    split <;> rename_i hany
    · simp [Function.comp_def, hany]
    · simp [Function.comp_def, hany]

/-- Elements that were there before do not change which elements are distinct. -/
theorem eraseDups_append_of_subset {α : Type} [BEq α] [LawfulBEq α] {xs again : List α}
    (h : again ⊆ xs) (ys : List α) : (xs ++ (again ++ ys)).eraseDups = (xs ++ ys).eraseDups := by
  have hagain : again.filter (fun a ↦ !xs.elem a) = [] := by
    rw [List.filter_eq_nil_iff]
    intro a ha
    simp [h ha]
  rw [List.eraseDups_append, List.eraseDups_append, List.removeAll, List.removeAll,
    List.filter_append, hagain, List.nil_append]

end ObjectSelect
