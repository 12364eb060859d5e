import Mathlib.Data.List.Basic
import ObjectSelect.QueryPart

/-!
# The first query specification of a query part

A walk through a query part meets the part itself and then, from left to right, the parts that it
combines, each with all that is below it (`QueryPart.walk`). `QueryPart.firstSpec?` takes another
way: it goes to the first part of every group, and so to the first part on the walk that combines no
others (`QueryPart.exists_firstLeaf`). If this is a query specification, it is the first one on the
walk, and so it is wherever every group has parts (`QueryPart.exists_firstSpec?`). But it can be a
group without parts, and then there is no first query specification, even if the walk meets one
later (`QueryPart.firstSpec?_eq_firstMet?_iff`).
-/

set_option autoImplicit false
set_option relaxedAutoImplicit false

namespace ObjectSelect

namespace QueryPart

mutual

/-- The parts that a walk through a query part meets, in order: a group before the parts that it
combines, and these from left to right. -/
def walk : QueryPart → List QueryPart
  | .spec s => [.spec s]
  | .group operator parts => .group operator parts :: walkAll parts
  termination_by structural part => part

/-- The parts that a walk through parts meets, one after the other. -/
def walkAll : List QueryPart → List QueryPart
  | [] => []
  | part :: rest => part.walk ++ walkAll rest
  termination_by structural parts => parts

end

/-- The first query specification that the walk meets. -/
def firstMet? (part : QueryPart) : Option QuerySpec :=
  part.walk.findSome? spec?

/-- Whether the part is a group without parts. -/
def isEmptyGroup : QueryPart → Bool
  | .group _ [] => true
  | _ => false

/-- The walk meets a group without parts before any query specification. -/
def OpensEmpty (part : QueryPart) : Prop :=
  ∃ met ∈ part.walk.takeWhile fun met ↦ !met.isSpec, met.isEmptyGroup = true

theorem spec?_eq_none_iff {part : QueryPart} : part.spec? = none ↔ part.isSpec = false := by
  cases part <;> simp [spec?, isSpec]

/-- The walk meets no query specification just when there is no first one. -/
theorem firstMet?_eq_none_iff {part : QueryPart} :
    part.firstMet? = none ↔ ∀ met ∈ part.walk, met.isSpec = false := by
  simp [firstMet?, spec?_eq_none_iff]

/-- The way to the first parts ends at the first part on the walk that combines no others. -/
theorem exists_firstLeaf (part : QueryPart) :
    ∃ before leaf after, part.walk = before ++ leaf :: after ∧
      (∀ met ∈ before, met.isSpec = false ∧ met.isEmptyGroup = false) ∧
      (leaf.isSpec = true ∨ leaf.isEmptyGroup = true) ∧ part.firstSpec? = leaf.spec? := by
  fun_induction firstSpec? part with
  | case1 s => exact ⟨[], .spec s, [], rfl, by simp, .inl rfl, rfl⟩
  | case2 operator => exact ⟨[], .group operator [], [], rfl, by simp, .inr rfl, rfl⟩
  | case3 operator part rest ih =>
    obtain ⟨before, leaf, after, hwalk, hbefore, hleaf, hfirst⟩ := ih
    refine ⟨.group operator (part :: rest) :: before, leaf, after ++ walkAll rest, ?_, ?_, hleaf,
      hfirst⟩
    · rw [walk, walkAll, hwalk, List.append_assoc, List.cons_append, List.cons_append]
    · rw [List.forall_mem_cons]
      exact ⟨⟨rfl, rfl⟩, hbefore⟩

/-- There is no first query specification just when a group without parts stands before all. -/
theorem firstSpec?_eq_none_iff {part : QueryPart} : part.firstSpec? = none ↔ part.OpensEmpty := by
  obtain ⟨before, leaf, after, hwalk, hbefore, hleaf, hfirst⟩ := part.exists_firstLeaf
  have hskip : ∀ met ∈ before, (!met.isSpec) = true := by
    intro met hmet
    rw [(hbefore met hmet).1, Bool.not_false]
  rw [hfirst, spec?_eq_none_iff, OpensEmpty, hwalk, List.takeWhile_append_of_pos hskip]
  constructor
  · intro hspec
    have hempty : leaf.isEmptyGroup = true := by simpa [hspec] using hleaf
    exact ⟨leaf, by simp [hspec], hempty⟩
  · rintro ⟨met, hmet, hempty⟩
    by_contra hspec
    rw [Bool.not_eq_false] at hspec
    -- The walk is cut off at the leaf, and there is no such group before it.
    rw [List.takeWhile_cons_of_neg (by simp [hspec]), List.append_nil] at hmet
    simp [(hbefore met hmet).2] at hempty

/-- The first query specification is the first that the walk meets. -/
theorem firstMet?_of_firstSpec? {part : QueryPart} {s : QuerySpec} (h : part.firstSpec? = some s) :
    part.firstMet? = some s := by
  obtain ⟨before, leaf, after, hwalk, hbefore, -, hfirst⟩ := part.exists_firstLeaf
  have hskip : before.findSome? spec? = none := by
    rw [List.findSome?_eq_none_iff]
    intro met hmet
    exact spec?_eq_none_iff.mpr (hbefore met hmet).1
  rw [firstMet?, hwalk, List.findSome?_append, hskip, Option.none_or, List.findSome?_cons, ← hfirst,
    h]

/-- If every group has parts, there is a first query specification, and it is the first that the
walk meets. -/
theorem exists_firstSpec? {part : QueryPart} (h : ∀ met ∈ part.walk, met.isEmptyGroup = false) :
    ∃ s, part.firstSpec? = some s ∧ part.firstMet? = some s := by
  have hfirst : part.firstSpec? ≠ none := by
    rw [Ne, firstSpec?_eq_none_iff]
    rintro ⟨met, hmet, hempty⟩
    simp [h met (List.takeWhile_subset _ hmet)] at hempty
  obtain ⟨s, hs⟩ := Option.ne_none_iff_exists'.mp hfirst
  exact ⟨s, hs, firstMet?_of_firstSpec? hs⟩

/-- When the first query specification is the one that a walk from left to right meets first. What
is given is always the first one met. Nothing is given just when the walk meets a group without
parts before any query specification, and this is wrong just when it meets one after all. -/
theorem firstSpec?_eq_firstMet?_iff (part : QueryPart) :
    (∀ s, part.firstSpec? = some s → part.firstMet? = some s) ∧
    (part.firstSpec? = none ↔ part.OpensEmpty) ∧
    (part.firstSpec? = part.firstMet? ↔
      (part.OpensEmpty → ∀ met ∈ part.walk, met.isSpec = false)) := by
  refine ⟨fun s ↦ firstMet?_of_firstSpec?, firstSpec?_eq_none_iff, ?_⟩
  rw [← firstSpec?_eq_none_iff, ← firstMet?_eq_none_iff]
  cases hfirst : part.firstSpec? with
  | none => simp [eq_comm]
  | some s => simp [firstMet?_of_firstSpec? hfirst]

/-- A union of an empty group with a query specification has a query specification, and no first
one. -/
theorem spec_behind_empty_group :
    let pets : QuerySpec := .ofTables [⟨"pet", "p1_0"⟩]
    let part : QueryPart := .group .union [.group .except [], .spec pets]
    part.firstMet? = some pets ∧ part.firstSpec? = none :=
  ⟨rfl, rfl⟩

end QueryPart

end ObjectSelect
