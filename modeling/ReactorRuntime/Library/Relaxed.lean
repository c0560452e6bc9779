import Mathlib.Data.List.Induction
import Mathlib.Data.Nat.Basic
import Mathlib.Logic.Function.Basic
import Mathlib.Order.Monotone.Basic

/-!
# Relaxed atomics

Atomic locations whose loads and stores order nothing but themselves.  The stores to one location
come in one order, its modification order, and a thread never goes back in it: having seen a value,
by loading or by storing it, it does not load an earlier one again.  Nothing more is true: a thread
may load an old value as long as it has not seen a later one of that location, whatever it has seen
of the others.

A location that only one thread stores to, and that follows a quantity which that thread keeps, has
for its history the values of the quantity at increasing moments (`Chronicle`).  So what another
thread loads, one load after the other, is the quantity at increasing moments
(`Chronicle.exists_moments`), each location with moments of its own.
-/

namespace ReactorRuntime

/-- Atomic locations `κ`, with the values that were stored in each, first to last, and how far each
thread has come in it. -/
structure Relaxed (ι κ V : Type*) where
  history : κ → List V
  view : ι → κ → ℕ
  bounded : ∀ i x, view i x < (history x).length

namespace Relaxed

variable {ι κ V : Type*} [DecidableEq ι] [DecidableEq κ] {m m' : Relaxed ι κ V} {i j : ι} {x y : κ}
  {k : ℕ} {v : V}

/-- Every location has its first value, which every thread has seen. -/
def initial (value : κ → V) : Relaxed ι κ V where
  history x := [value x]
  view _ _ := 0
  bounded _ _ := Nat.one_pos

/-- Thread `i` has come to the value with number `k`. -/
def look (m : Relaxed ι κ V) (i : ι) (x : κ) (k : ℕ) (hk : k < (m.history x).length) :
    Relaxed ι κ V where
  history := m.history
  view := Function.update m.view i (Function.update (m.view i) x k)
  bounded j y := by
    by_cases hj : j = i
    · subst hj
      by_cases hy : y = x
      · subst hy
        simpa using hk
      · simpa [hy] using m.bounded j y
    · simpa [hj] using m.bounded j y

/-- `load(memory_order_relaxed)` of thread `i`, that takes the value with number `k`. -/
def load (m : Relaxed ι κ V) (i : ι) (x : κ) (k : ℕ) : Option (V × Relaxed ι κ V) :=
  if h : m.view i x ≤ k ∧ k < (m.history x).length then
    some ((m.history x).get ⟨k, h.2⟩, m.look i x k h.2)
  else none

/-- `store(v, memory_order_relaxed)` of thread `i`. -/
def store (m : Relaxed ι κ V) (i : ι) (x : κ) (v : V) : Relaxed ι κ V where
  history := Function.update m.history x (m.history x ++ [v])
  view := Function.update m.view i (Function.update (m.view i) x (m.history x).length)
  bounded j y := by
    by_cases hy : y = x
    · subst hy
      have := m.bounded j y
      by_cases hj : j = i
      · subst hj
        simp
      · simp [hj]
        omega
    · by_cases hj : j = i
      · subst hj
        simpa [hy] using m.bounded j y
      · simpa [hy, hj] using m.bounded j y

/-! ## What a load and a store do -/

/-- A load goes forward in the location, and nowhere else. -/
lemma load_spec (h : m.load i x k = some (v, m')) :
    m.view i x ≤ k ∧ (m.history x)[k]? = some v ∧ m'.history = m.history ∧
      m'.view = Function.update m.view i (Function.update (m.view i) x k) := by
  obtain ⟨hk, h⟩ := Option.dite_none_right_eq_some.mp h
  cases h
  exact ⟨hk.1, by simp [hk.2], rfl, rfl⟩

/-- A store does not change what was stored before. -/
lemma getElem?_store (h : (m.history y)[k]? = some v) (i : ι) (x : κ) (w : V) :
    ((m.store i x w).history y)[k]? = some v := by
  obtain ⟨hk, rfl⟩ := List.getElem?_eq_some_iff.mp h
  by_cases hy : y = x
  · subst hy
    simp [store, List.getElem?_append_left hk]
  · simp [store, hy]

lemma view_le_of_load (h : m.load i x k = some (v, m')) (j : ι) (y : κ) :
    m.view j y ≤ m'.view j y := by
  obtain ⟨hk, -, -, hview⟩ := load_spec h
  rw [hview]
  by_cases hj : j = i
  · subst hj
    by_cases hy : y = x
    · subst hy
      simpa using hk
    · simp [hy]
  · simp [hj]

/-! ## A thread that is the only one to store -/

/-- Thread `i` has seen everything. -/
def Ahead (m : Relaxed ι κ V) (i : ι) : Prop := ∀ x, m.view i x + 1 = (m.history x).length

omit [DecidableEq ι] [DecidableEq κ] in
lemma ahead_initial (value : κ → V) (i : ι) : (initial value : Relaxed ι κ V).Ahead i :=
  fun _ => rfl

/-- It loads the last value. -/
lemma Ahead.load (ha : m.Ahead i) (h : m.load i x k = some (v, m')) :
    (m.history x).getLast? = some v ∧ m'.Ahead i := by
  obtain ⟨hk, hv, hhistory, hview⟩ := load_spec h
  obtain ⟨hlt, -⟩ := List.getElem?_eq_some_iff.mp hv
  have hx := ha x
  obtain rfl : k = (m.history x).length - 1 := by omega
  refine ⟨by rw [List.getLast?_eq_getElem?, hv], fun y => ?_⟩
  rw [hhistory, hview, Function.update_self]
  by_cases hy : y = x
  · subst hy
    rw [Function.update_self]
    omega
  · rw [Function.update_of_ne hy]
    exact ha y

lemma Ahead.of_load (ha : m.Ahead i) (hj : i ≠ j) (h : m.load j x k = some (v, m')) :
    m'.Ahead i := by
  obtain ⟨-, -, hhistory, hview⟩ := load_spec h
  intro y
  rw [hhistory, hview, Function.update_of_ne hj]
  exact ha y

lemma Ahead.store (ha : m.Ahead i) : (m.store i x v).Ahead i := by
  intro y
  by_cases hy : y = x
  · subst hy
    simp [Relaxed.store]
  · simpa [Relaxed.store, hy] using ha y

end Relaxed

/-! ## A location that follows a quantity -/

/-- The values that were stored in a location, up to moment `n`, when each store stores what
`value` has come to and there is no store only when it has not changed. -/
inductive Chronicle {V : Type*} (value : ℕ → V) : ℕ → List V → Prop
  | init : Chronicle value 0 [value 0]
  | skip {n : ℕ} {history : List V} (h : Chronicle value n history)
      (same : value (n + 1) = value n) : Chronicle value (n + 1) history
  | store {n : ℕ} {history : List V} (h : Chronicle value n history) :
      Chronicle value (n + 1) (history ++ [value (n + 1)])

namespace Chronicle

variable {V : Type*} {value value' : ℕ → V} {n : ℕ} {history : List V}

lemma getLast? (h : Chronicle value n history) : history.getLast? = some (value n) := by
  induction h with
  | init => rfl
  | skip _ same ih => rw [ih, same]
  | store => simp

/-- Only what the quantity was up to then matters. -/
lemma congr (h : Chronicle value n history) (heq : ∀ k ≤ n, value' k = value k) :
    Chronicle value' n history := by
  induction h with
  | init =>
      rw [← heq 0 (Nat.le_refl 0)]
      exact .init
  | skip _ same ih =>
      refine .skip (ih fun k hk => heq k (by omega)) ?_
      rw [heq _ (Nat.le_refl _), heq _ (Nat.le_succ _), same]
  | store _ ih =>
      rw [← heq _ (Nat.le_refl _)]
      exact .store (ih fun k hk => heq k (by omega))

/-- **What is loaded in a row is the quantity at moments in a row.** -/
theorem exists_moments (h : Chronicle value n history) :
    ∃ moment : ℕ → ℕ, Monotone moment ∧ (∀ k, moment k ≤ n) ∧
      ∀ k v, history[k]? = some v → v = value (moment k) := by
  induction h with
  | init =>
      refine ⟨fun _ => 0, monotone_const, fun _ => Nat.le_refl 0, fun k v hv => ?_⟩
      cases k with
      | zero => exact (Option.some.inj hv).symm
      | succ k => simp at hv
  | skip _ _ ih =>
      obtain ⟨moment, hmono, hle, hvalue⟩ := ih
      exact ⟨moment, hmono, fun k => Nat.le_succ_of_le (hle k), hvalue⟩
  | @store n history _ ih =>
      obtain ⟨moment, hmono, hle, hvalue⟩ := ih
      -- the last value is that of the last moment
      refine ⟨fun k => if k < history.length then moment k else n + 1, ?_, ?_, ?_⟩
      · intro k l hkl
        by_cases hl : l < history.length
        · simpa [hl, Nat.lt_of_le_of_lt hkl hl] using hmono hkl
        · by_cases hk : k < history.length
          · simpa [hl, hk] using Nat.le_succ_of_le (hle k)
          · simp [hl, hk]
      · intro k
        show (if k < history.length then moment k else n + 1) ≤ n + 1
        split
        · exact Nat.le_succ_of_le (hle k)
        · exact Nat.le_refl _
      · intro k v hv
        show v = value (if k < history.length then moment k else n + 1)
        split
        · next hk =>
            rw [List.getElem?_append_left hk] at hv
            exact hvalue k v hv
        · next hk =>
            rw [List.getElem?_append_right (Nat.not_lt.mp hk)] at hv
            cases hd : k - history.length with
            | zero =>
                rw [hd] at hv
                exact (Option.some.inj hv).symm
            | succ d =>
                rw [hd] at hv
                simp at hv

end Chronicle

end ReactorRuntime
