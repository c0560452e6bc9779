import Mathlib.Algebra.BigOperators.Intervals
import Mathlib.Algebra.Order.BigOperators.Group.Finset

/-!
# Counting over a table of entries

A counter that many owners add to and take from is right when it equals the total weight of
what the owners hold.  `census S w f` is that total, for a table `f` of entries, a finite
set `S` of places and a weight `w`.  The rules say what a change of one entry does to the
total: this is all a proof about a shared counter needs.
-/

namespace ReactorRuntime

variable {ι α : Type*} [DecidableEq ι] {S : Finset ι} {w : α → ℕ} {f : ι → α}

/-- The total weight of the entries of `f` at the places in `S`. -/
def census (S : Finset ι) (w : α → ℕ) (f : ι → α) : ℕ := ∑ i ∈ S, w (f i)

/-- Replacing an entry exchanges its weight. -/
theorem census_update {i : ι} (hi : i ∈ S) (x : α) :
    census S w (Function.update f i x) + w (f i) = census S w f + w x := by
  have hrest : ∑ j ∈ S.erase i, w (Function.update f i x j) = ∑ j ∈ S.erase i, w (f j) :=
    Finset.sum_congr rfl fun j hj => by rw [Function.update_of_ne (Finset.ne_of_mem_erase hj)]
  unfold census
  rw [← Finset.add_sum_erase S _ hi, ← Finset.add_sum_erase S (fun j => w (f j)) hi, hrest,
    Function.update_self]
  omega

/-- An entry replaced by one of the same weight. -/
lemma census_update_of_eq {i : ι} {x : α} (hx : w x = w (f i)) :
    census S w (Function.update f i x) = census S w f := by
  refine Finset.sum_congr rfl fun j _ => ?_
  rcases eq_or_ne j i with rfl | hne
  · rw [Function.update_self, hx]
  · rw [Function.update_of_ne hne]

omit [DecidableEq ι] in
/-- One entry weighs no more than all of them. -/
lemma le_census {i : ι} (hi : i ∈ S) : w (f i) ≤ census S w f :=
  Finset.single_le_sum (f := fun i => w (f i)) (fun _ _ => Nat.zero_le _) hi

omit [DecidableEq ι] in
lemma census_eq_zero (h : ∀ i ∈ S, w (f i) = 0) : census S w f = 0 := Finset.sum_eq_zero h

omit [DecidableEq ι] in
/-- Entries that weigh 1 at most. -/
lemma census_le_card (h : ∀ i ∈ S, w (f i) ≤ 1) : census S w f ≤ S.card := by
  rw [Finset.card_eq_sum_ones]
  exact Finset.sum_le_sum h

/-- A table filled in order takes its next entry. -/
lemma census_range_succ {f : ℕ → α} {b : ℕ} (x : α) :
    census (Finset.range (b + 1)) w (Function.update f b x) =
      census (Finset.range b) w f + w x := by
  unfold census
  rw [Finset.sum_range_succ, Function.update_self]
  congr 1
  exact Finset.sum_congr rfl fun j hj => by
    rw [Function.update_of_ne (Finset.mem_range.mp hj).ne]

end ReactorRuntime
