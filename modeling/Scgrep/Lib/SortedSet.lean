import Mathlib.Algebra.BigOperators.Group.Finset.Basic
import Mathlib.Data.List.Sort

/-!
# Sorted sets

`sortedSet l` lists the elements of `l` once each, in order. It depends on the members
of `l` only.
-/

variable {α : Type*} [LinearOrder α] {l l' : List α}

/-- The elements of a list once each, in order. -/
def sortedSet (l : List α) : List α := l.dedup.insertionSort (· ≤ ·)

namespace SortedSet

@[simp] theorem mem_sortedSet {a : α} : a ∈ sortedSet l ↔ a ∈ l := by
  unfold sortedSet
  rw [List.mem_insertionSort, List.mem_dedup]

theorem nodup (l : List α) : (sortedSet l).Nodup :=
  (List.perm_insertionSort _ _).nodup_iff.2 (List.nodup_dedup l)

theorem pairwise_le (l : List α) : (sortedSet l).Pairwise (· ≤ ·) := List.pairwise_insertionSort _ _

theorem pairwise_lt (l : List α) : (sortedSet l).Pairwise (· < ·) :=
  (pairwise_le l).imp₂ (fun _ _ hle hne => lt_of_le_of_ne hle hne) (nodup l)

/-- Lists in strict order are determined by their members. -/
theorem eq_of_mem_iff (hl : l.Pairwise (· < ·)) (hl' : l'.Pairwise (· < ·)) (h : ∀ a, a ∈ l ↔ a ∈ l') :
    l = l' := by
  have hperm : l.Perm l' :=
    (List.perm_ext_iff_of_nodup (hl.imp fun h => h.ne) (hl'.imp fun h => h.ne)).2 h
  exact hperm.eq_of_pairwise (fun _ _ _ _ h h' => absurd h' (lt_asymm h)) hl hl'

/-- **Only the members count.** -/
theorem congr (h : ∀ a, a ∈ l ↔ a ∈ l') : sortedSet l = sortedSet l' :=
  eq_of_mem_iff (pairwise_lt l) (pairwise_lt l') fun a => by rw [mem_sortedSet, mem_sortedSet, h]

/-- A sum over the elements. -/
theorem sum_map {M : Type*} [AddCommMonoid M] (f : α → M) (l : List α) :
    ((sortedSet l).map f).sum = ∑ a ∈ l.toFinset, f a := by
  rw [← List.sum_toFinset f (nodup l)]
  refine Finset.sum_congr ?_ fun _ _ => rfl
  ext a
  rw [List.mem_toFinset, List.mem_toFinset, mem_sortedSet]

end SortedSet
