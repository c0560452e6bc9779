import Mathlib.Data.List.Sort
import Mathlib.Order.Monotone.Basic
import Mathlib.Algebra.BigOperators.Fin

/-!
# Order statistics seen through buckets

The `k`-th smallest entry of a list is the entry at place `k` once the list is sorted.  Fewer than
`k` entries lie below it, and at least `k` do not lie above it (`kthSmallest_bounds`).  A monotone
map, such as one from values to the buckets of a histogram, keeps that: `k` entries have been
counted by bucket `i` exactly if the bucket of the `k`-th smallest entry is `i` or an earlier one
(`le_countP_iff`).  So the cumulative scan of a histogram finds the bucket of an order statistic.
-/

namespace ReactorRuntime

section

variable {α β : Type*} [LinearOrder α] [LinearOrder β] {l : List α} {k : ℕ} {v : α}

/-- The `k`-th smallest entry, counted from 1. -/
def kthSmallest (l : List α) (k : ℕ) : Option α := (l.insertionSort (· ≤ ·))[k - 1]?

lemma exists_kthSmallest (hpos : 1 ≤ k) (hle : k ≤ l.length) : ∃ v, kthSmallest l k = some v := by
  have hlt : k - 1 < (l.insertionSort (· ≤ ·)).length := by
    rw [List.length_insertionSort]
    omega
  exact ⟨_, List.getElem?_eq_getElem hlt⟩

/-- A sorted list around one of its entries. -/
lemma countP_of_sorted {a b : List α} (h : (a ++ v :: b).Pairwise (· ≤ ·)) :
    (a ++ v :: b).countP (fun x => decide (x < v)) ≤ a.length ∧
      a.length + 1 ≤ (a ++ v :: b).countP (fun x => decide (x ≤ v)) := by
  obtain ⟨-, hright, hacross⟩ := List.pairwise_append.mp h
  obtain ⟨habove, -⟩ := List.pairwise_cons.mp hright
  constructor
  · -- nothing from `v` on is below it
    have hzero : (v :: b).countP (fun x => decide (x < v)) = 0 := by
      refine List.countP_eq_zero.mpr fun x hx => ?_
      rw [decide_eq_true_eq, not_lt]
      rcases List.mem_cons.mp hx with rfl | hx
      · exact le_refl x
      · exact habove x hx
    rw [List.countP_append, hzero, Nat.add_zero]
    exact List.countP_le_length
  · have hall : a.countP (fun x => decide (x ≤ v)) = a.length :=
      List.countP_eq_length.mpr fun x hx =>
        decide_eq_true (hacross x hx v List.mem_cons_self)
    have hself : (v :: b).countP (fun x => decide (x ≤ v)) =
        b.countP (fun x => decide (x ≤ v)) + 1 :=
      List.countP_cons_of_pos (decide_eq_true (le_refl v))
    rw [List.countP_append, hall, hself]
    omega

/-- Fewer than `k` entries are below the `k`-th smallest one, and `k` or more are not above it. -/
lemma kthSmallest_bounds (hpos : 1 ≤ k) (h : kthSmallest l k = some v) :
    l.countP (fun x => decide (x < v)) < k ∧ k ≤ l.countP (fun x => decide (x ≤ v)) := by
  have hperm := List.perm_insertionSort (· ≤ ·) l
  have hsorted := List.pairwise_insertionSort (· ≤ ·) l
  rw [← hperm.countP_eq, ← hperm.countP_eq]
  obtain ⟨hlt, hv⟩ := List.getElem?_eq_some_iff.mp h
  -- the sorted list, cut before its entry `k - 1`
  have hcut := List.take_append_drop (k - 1) (l.insertionSort (· ≤ ·))
  rw [← List.getElem_cons_drop hlt, hv] at hcut
  have hlength : ((l.insertionSort (· ≤ ·)).take (k - 1)).length = k - 1 :=
    List.length_take_of_le (Nat.le_of_lt hlt)
  rw [← hcut] at hsorted ⊢
  obtain ⟨hbelow, habove⟩ := countP_of_sorted hsorted
  rw [hlength] at hbelow habove
  exact ⟨by omega, by omega⟩

/-- **Ranks seen through a monotone map.**  `k` entries are mapped to `i` or below exactly if the
`k`-th smallest one is. -/
theorem le_countP_iff {f : α → β} (hf : Monotone f) (hpos : 1 ≤ k) (h : kthSmallest l k = some v)
    (i : β) : k ≤ l.countP (fun x => decide (f x ≤ i)) ↔ f v ≤ i := by
  obtain ⟨hbelow, habove⟩ := kthSmallest_bounds hpos h
  constructor
  · intro hcount
    by_contra hlate
    -- what is mapped to `i` or below is then below `v`
    have hle : l.countP (fun x => decide (f x ≤ i)) ≤ l.countP (fun x => decide (x < v)) := by
      apply List.countP_mono_left
      intro x _ hx
      rw [decide_eq_true_eq] at hx ⊢
      by_contra hge
      exact hlate (le_trans (hf (not_lt.mp hge)) hx)
    omega
  · intro hearly
    apply le_trans habove
    apply List.countP_mono_left
    intro x _ hx
    rw [decide_eq_true_eq] at hx ⊢
    exact le_trans (hf hx) hearly

end

/-! ## Histograms -/

variable {α : Type*}

/-- The entries of a list, bucket by bucket. -/
lemma sum_countP_eq_length {n : ℕ} (f : α → Fin n) (l : List α) :
    ∑ i, l.countP (fun x => decide (f x = i)) = l.length := by
  induction l with
  | nil => simp
  | cons x l ih => simp [List.countP_cons, Finset.sum_add_distrib, ih]

/-- What has been counted by bucket `i` is what was counted before it, and the bucket itself. -/
lemma countP_le_eq_add (f : α → ℕ) (l : List α) (i : ℕ) :
    l.countP (fun x => decide (f x ≤ i)) =
      l.countP (fun x => decide (f x < i)) + l.countP (fun x => decide (f x = i)) := by
  induction l with
  | nil => rfl
  | cons x l ih =>
      rw [List.countP_cons, List.countP_cons, List.countP_cons, ih]
      simp only [decide_eq_true_eq]
      split_ifs <;> omega

end ReactorRuntime
