/-!
# Association lists

Lists of keys with values, in the order in which the keys came. Looking up is `List.lookup`; `put`
gives a key a new value in its old place and adds a new key at the end. It changes what is found
under the keys equal to its key, and nothing else.
-/

set_option autoImplicit false
set_option relaxedAutoImplicit false

namespace ObjectSelect.Assoc

variable {κ α : Type} [BEq κ]

/-- Gives `key` the value `value`. An equal key that is there already stays as it is. -/
def put (key : κ) (value : α) : List (κ × α) → List (κ × α)
  | [] => [(key, value)]
  | (held, old) :: rest =>
    if key == held then (held, value) :: rest else (held, old) :: put key value rest

theorem lookup_put [EquivBEq κ] (key other : κ) (value : α) (entries : List (κ × α)) :
    (put key value entries).lookup other =
      if other == key then some value else entries.lookup other := by
  induction entries with
  | nil => cases h : other == key <;> simp [put, List.lookup_cons, h]
  | cons entry rest ih =>
    obtain ⟨held, old⟩ := entry
    cases hheld : key == held with
    | true =>
      have hsame : (other == held) = (other == key) := BEq.congr_right (BEq.symm hheld)
      cases h : other == key <;> simp [put, hheld, hsame, h, List.lookup_cons]
    | false =>
      simp only [put, hheld, Bool.false_eq_true, if_false, List.lookup_cons, ih]
      cases hother : other == held with
      | false => rfl
      | true =>
        have hkey : (other == key) = false := by
          rw [Bool.eq_false_iff]
          intro h
          rw [BEq.trans (BEq.symm h) hother] at hheld
          exact Bool.noConfusion hheld
        simp [hkey]

theorem lookup_congr [EquivBEq κ] {key other : κ} (h : (key == other) = true)
    (entries : List (κ × α)) : entries.lookup key = entries.lookup other := by
  induction entries with
  | nil => rfl
  | cons entry rest ih =>
    rw [List.lookup_cons, List.lookup_cons, BEq.congr_left h, ih]

theorem exists_mem_of_lookup {key : κ} {value : α} {entries : List (κ × α)}
    (h : entries.lookup key = some value) :
    ∃ held, (held, value) ∈ entries ∧ (key == held) = true := by
  induction entries with
  | nil => cases h
  | cons entry rest ih =>
    obtain ⟨held, current⟩ := entry
    rw [List.lookup_cons] at h
    cases hkey : key == held with
    | true =>
      rw [hkey] at h
      obtain rfl : current = value := Option.some.inj h
      exact ⟨held, List.mem_cons_self, hkey⟩
    | false =>
      rw [hkey] at h
      obtain ⟨found, hmem, hfound⟩ := ih h
      exact ⟨found, List.mem_cons_of_mem _ hmem, hfound⟩

theorem put_of_lookup_eq_none {key : κ} {entries : List (κ × α)}
    (h : entries.lookup key = none) (value : α) :
    put key value entries = entries ++ [(key, value)] := by
  induction entries with
  | nil => rfl
  | cons entry rest ih =>
    rw [List.lookup_cons] at h
    cases hkey : key == entry.1 with
    | true => simp [hkey] at h
    | false =>
      rw [hkey] at h
      simp [put, hkey, ih h]

/-- The keys that are there stay, in their order. -/
theorem keys_prefix_put (key : κ) (value : α) (entries : List (κ × α)) :
    entries.map Prod.fst <+: (put key value entries).map Prod.fst := by
  induction entries with
  | nil => exact List.nil_prefix
  | cons entry rest ih =>
    unfold put
    split
    · exact List.prefix_rfl
    · exact (List.prefix_cons_inj entry.1).mpr ih

end ObjectSelect.Assoc
