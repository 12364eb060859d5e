import Mathlib.Data.List.Forall2
import Mathlib.Data.List.Induction
import ObjectSelect.Assoc

/-!
# Association lists as maps

An association list built from entries by `putAll` keeps each key where it came first, with the
value that came last (`Assoc.putAll_nil_eq`).
-/

set_option autoImplicit false
set_option relaxedAutoImplicit false

namespace ObjectSelect

namespace Assoc

variable {κ α β : Type} [BEq κ]

/-- Puts entries one after the other. -/
def putAll (held entries : List (κ × α)) : List (κ × α) :=
  entries.foldl (fun held entry ↦ put entry.1 entry.2 held) held

theorem putAll_append_singleton (held entries : List (κ × α)) (entry : κ × α) :
    putAll held (entries ++ [entry]) = put entry.1 entry.2 (putAll held entries) := by
  simp [putAll]

/-! ### Entries of the same keys -/

section

variable {r : α → β → Prop}

theorem forall₂_put {xs : List (κ × α)} {ys : List (κ × β)}
    (h : List.Forall₂ (fun x y ↦ x.1 = y.1 ∧ r x.2 y.2) xs ys) (key : κ) {a : α} {b : β}
    (hvalue : r a b) :
    List.Forall₂ (fun x y ↦ x.1 = y.1 ∧ r x.2 y.2) (put key a xs) (put key b ys) := by
  induction h with
  | nil => exact .cons ⟨rfl, hvalue⟩ .nil
  | @cons x y xs ys hxy hrest ih =>
    obtain ⟨held, old⟩ := x
    obtain ⟨held', old'⟩ := y
    obtain ⟨rfl, hold⟩ := hxy
    simp only [put]
    cases key == held with
    | true => exact .cons ⟨rfl, hvalue⟩ hrest
    | false => exact .cons ⟨rfl, hold⟩ ih

/-- Entries whose values are related stay related when they are put one after the other. -/
theorem forall₂_putAll {held : List (κ × α)} {held' : List (κ × β)} {xs : List (κ × α)}
    {ys : List (κ × β)} (h : List.Forall₂ (fun x y ↦ x.1 = y.1 ∧ r x.2 y.2) xs ys)
    (hheld : List.Forall₂ (fun x y ↦ x.1 = y.1 ∧ r x.2 y.2) held held') :
    List.Forall₂ (fun x y ↦ x.1 = y.1 ∧ r x.2 y.2) (putAll held xs) (putAll held' ys) := by
  induction h generalizing held held' with
  | nil => exact hheld
  | @cons x y xs ys hxy _ ih =>
    obtain ⟨hkey, hvalue⟩ := hxy
    refine ih ?_
    simp only [← hkey]
    exact forall₂_put hheld x.1 hvalue

end

/-! ### What is built from nothing -/

section

variable [LawfulBEq κ]

theorem mem_keys_iff_lookup {key : κ} {entries : List (κ × α)} :
    key ∈ entries.map Prod.fst ↔ (entries.lookup key).isSome = true := by
  rw [List.lookup_isSome_iff, List.mem_map]
  simp only [beq_iff_eq, eq_comm (a := key)]

theorem mem_of_lookup {key : κ} {value : α} {entries : List (κ × α)}
    (h : entries.lookup key = some value) : (key, value) ∈ entries := by
  obtain ⟨before, after, rfl, -⟩ := List.lookup_eq_some_iff.mp h
  exact List.mem_append_right before List.mem_cons_self

theorem keys_put (key : κ) (value : α) (entries : List (κ × α)) :
    (put key value entries).map Prod.fst =
      if key ∈ entries.map Prod.fst then entries.map Prod.fst
      else entries.map Prod.fst ++ [key] := by
  induction entries with
  | nil => simp [put]
  | cons entry rest ih =>
    obtain ⟨held, old⟩ := entry
    by_cases h : key = held
    · simp [put, h]
    · have hfalse : (key == held) = false := by simpa using h
      rw [put, if_neg (by simp [hfalse]), List.map_cons, ih]
      split <;> rename_i hmem <;> simp_all

/-- If a value that is put in the place of another one brings one more thing, so does the list. -/
theorem flatMap_put_perm {f : κ × α → List β} {key : κ} {old value : α} {more : β}
    (hvalue : (f (key, value)).Perm (more :: f (key, old))) {entries : List (κ × α)}
    (hlookup : entries.lookup key = some old) :
    ((put key value entries).flatMap f).Perm (more :: entries.flatMap f) := by
  induction entries with
  | nil => cases hlookup
  | cons entry rest ih =>
    obtain ⟨held, current⟩ := entry
    rw [List.lookup_cons] at hlookup
    by_cases hkey : key = held
    · subst hkey
      rw [beq_self_eq_true] at hlookup
      obtain rfl : current = old := Option.some.inj hlookup
      simp only [put, beq_self_eq_true, if_true, List.flatMap_cons]
      exact hvalue.append_right (rest.flatMap f)
    · have hother : (key == held) = false := by simpa using hkey
      rw [hother] at hlookup
      simp only [put, hother, Bool.false_eq_true, if_false, List.flatMap_cons]
      exact ((ih hlookup).append_left (f (held, current))).trans List.perm_middle

/-- Each key stands where it came first. -/
theorem keys_putAll_nil (entries : List (κ × α)) :
    (putAll [] entries).map Prod.fst = (entries.map Prod.fst).eraseDups := by
  induction entries using List.reverseRecOn with
  | nil => rfl
  | append_singleton rest entry ih =>
    have hmem : entry.1 ∈ (putAll [] rest).map Prod.fst ↔ entry.1 ∈ rest.map Prod.fst := by
      rw [ih, List.mem_eraseDups]
    rw [putAll_append_singleton, keys_put, List.map_append, List.eraseDups_append, ← ih]
    by_cases h : entry.1 ∈ rest.map Prod.fst
    · simp [hmem.mpr h, List.removeAll, h]
    · simp [mt hmem.mp h, List.removeAll, h, List.eraseDups_cons]

theorem nodup_keys_putAll_nil (entries : List (κ × α)) :
    ((putAll [] entries).map Prod.fst).Nodup := by
  induction entries using List.reverseRecOn with
  | nil => exact List.nodup_nil
  | append_singleton rest entry ih =>
    rw [putAll_append_singleton, keys_put]
    split
    · exact ih
    · rename_i h
      exact List.nodup_append.mpr ⟨ih, by simp, by grind⟩

/-- Entries whose keys are distinct are kept as they are. -/
theorem putAll_nil_of_nodup {entries : List (κ × α)} (h : (entries.map Prod.fst).Nodup) :
    putAll [] entries = entries := by
  induction entries using List.reverseRecOn with
  | nil => rfl
  | append_singleton rest entry ih =>
    rw [List.map_append, List.map_singleton, List.nodup_append] at h
    obtain ⟨hrest, -, hnew⟩ := h
    have hnone : rest.lookup entry.1 = none := by
      rw [List.lookup_eq_none_iff]
      intro held hmem
      rw [bne_iff_ne]
      exact (hnew held.1 (List.mem_map.mpr ⟨held, hmem, rfl⟩) entry.1 List.mem_cons_self).symm
    rw [putAll_append_singleton, ih hrest, put_of_lookup_eq_none hnone]

/-- Each key has the value that came last. -/
theorem lookup_putAll_nil (entries : List (κ × α)) (key : κ) :
    (putAll [] entries).lookup key = entries.reverse.lookup key := by
  induction entries using List.reverseRecOn with
  | nil => rfl
  | append_singleton rest entry ih =>
    rw [putAll_append_singleton, lookup_put, ih, List.reverse_append, List.reverse_singleton,
      List.singleton_append, List.lookup_cons]
    cases key == entry.1 <;> rfl

theorem lookup_eq_some_of_mem {entries : List (κ × α)} (h : (entries.map Prod.fst).Nodup)
    {key : κ} {value : α} (hmem : (key, value) ∈ entries) : entries.lookup key = some value := by
  induction entries with
  | nil => cases hmem
  | cons entry rest ih =>
    rw [List.map_cons, List.nodup_cons] at h
    rcases List.mem_cons.mp hmem with rfl | hrest
    · exact List.lookup_cons_self
    · have hne : (key == entry.1) = false := by
        rw [beq_eq_false_iff_ne]
        rintro rfl
        exact h.1 (List.mem_map.mpr ⟨_, hrest, rfl⟩)
      rw [List.lookup_cons, hne]
      exact ih h.2 hrest

theorem filterMap_lookup_keys {entries : List (κ × α)} (h : (entries.map Prod.fst).Nodup) :
    (entries.map Prod.fst).filterMap (fun key ↦ (entries.lookup key).map (key, ·)) = entries := by
  have hentry : ∀ entry ∈ entries, (entries.lookup entry.1).map (entry.1, ·) = some entry := by
    intro entry hmem
    rw [lookup_eq_some_of_mem h hmem, Option.map_some]
  rw [List.filterMap_map]
  exact (List.filterMap_congr hentry).trans List.filterMap_some

/-- Entries put one after the other keep each key where it came first, with the value that came
last. -/
theorem putAll_nil_eq (entries : List (κ × α)) :
    putAll [] entries = (entries.map Prod.fst).eraseDups.filterMap fun key ↦
      (entries.reverse.lookup key).map (key, ·) := by
  rw [← keys_putAll_nil]
  simp only [← lookup_putAll_nil]
  exact (filterMap_lookup_keys (nodup_keys_putAll_nil entries)).symm

end

end Assoc

end ObjectSelect
