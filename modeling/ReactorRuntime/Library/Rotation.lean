import Mathlib.Data.Nat.Notation
import Mathlib.Logic.Function.Basic
import Mathlib.Tactic.Lemma

/-!
# Counters dealt in rotation

`n` counters are bumped in turn.  Whatever the number of turns, the counters before the place where
the rotation stands are one ahead of the others (`Level`), so that no two of them are more than one
apart.
-/

namespace ReactorRuntime

/-- The place after `k` among `n`. -/
def advance (n k : ℕ) : ℕ := if k + 1 = n then 0 else k + 1

lemma advance_lt {n k : ℕ} (h : k < n) : advance n k < n := by
  unfold advance
  split
  · omega
  · omega

/-- The counters before place `k` are one ahead of the others. -/
def Level (n : ℕ) (f : ℕ → ℕ) (k : ℕ) : Prop :=
  ∃ q, ∀ r < n, f r = if r < k then q + 1 else q

namespace Level

variable {n k : ℕ} {f : ℕ → ℕ}

lemma zero (n : ℕ) : Level n (fun _ => 0) 0 := ⟨0, fun _ _ => rfl⟩

/-- The counter at the place of the rotation is bumped. -/
lemma bump (h : Level n f k) (hk : k < n) :
    Level n (Function.update f k (f k + 1)) (advance n k) := by
  obtain ⟨q, hq⟩ := h
  have hself : f k = q := (hq k hk).trans (if_neg (Nat.lt_irrefl k))
  unfold advance
  split
  · rename_i hlast
    -- the last counter has caught up with the ones before it
    refine ⟨q + 1, fun r hr => ?_⟩
    rw [if_neg (Nat.not_lt_zero r)]
    rcases eq_or_ne r k with rfl | hne
    · rw [Function.update_self, hself]
    · rw [Function.update_of_ne hne, hq r hr, if_pos (by omega)]
  · refine ⟨q, fun r hr => ?_⟩
    rcases eq_or_ne r k with rfl | hne
    · rw [Function.update_self, hself, if_pos (Nat.lt_succ_self r)]
    · rw [Function.update_of_ne hne, hq r hr]
      exact if_congr (by omega) rfl rfl

lemma le_succ (h : Level n f k) {r r' : ℕ} (hr : r < n) (hr' : r' < n) : f r ≤ f r' + 1 := by
  obtain ⟨q, hq⟩ := h
  rw [hq r hr, hq r' hr']
  split <;> split <;> omega

end Level

end ReactorRuntime
