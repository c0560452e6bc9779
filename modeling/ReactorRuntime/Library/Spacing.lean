import Mathlib.Algebra.Order.Group.Nat
import Mathlib.Data.List.Basic
import Mathlib.Tactic.Lemma

/-!
# Times that lie apart

What happens again and again with a pause in between cannot happen often.  `Rested time pause xs`
says of a list, the last entry first, that each entry is followed by its own pause; it is enough to
keep each new one away from the one before (`Rested.cons`).  `Spaced gap times` is the case of one
pause for all: any two of the times lie at least `gap` apart, so in a window of length `T` there are
at most `T / gap + 1` of them (`Spaced.length_le_of_window`).  Where the pauses differ, the window
holds that many and those whose pause is shorter than `gap` (`Rested.length_window_le`).
-/

namespace ReactorRuntime

section Lists

variable {α : Type*} {time pause : α → ℕ} {xs : List α}

/-- Each entry of the list, of which the last one comes first, is followed by its pause. -/
def Rested (time pause : α → ℕ) (xs : List α) : Prop :=
  xs.Pairwise fun later earlier => time earlier + pause earlier ≤ time later

namespace Rested

lemma nil : Rested time pause [] := List.Pairwise.nil

/-- One more entry, after the pause of the last one. -/
lemma cons {x : α} (h : Rested time pause xs)
    (hlast : ∀ y ∈ xs.head?, time y + pause y ≤ time x) : Rested time pause (x :: xs) := by
  refine List.pairwise_cons.mpr ⟨?_, h⟩
  cases xs with
  | nil => simp
  | cons y rest =>
      have hy : time y + pause y ≤ time x := hlast y rfl
      intro z hz
      rcases List.mem_cons.mp hz with rfl | hz
      · exact hy
      · have := (List.pairwise_cons.mp h).1 z hz
        omega

end Rested

end Lists

/-- The times, of which the last one comes first, lie at least `gap` apart. -/
def Spaced (gap : ℕ) (times : List ℕ) : Prop :=
  times.Pairwise fun later earlier => earlier + gap ≤ later

namespace Spaced

variable {gap : ℕ} {times : List ℕ}

lemma nil : Spaced gap [] := List.Pairwise.nil

/-- One more time, that is `gap` after the last one. -/
lemma cons {t : ℕ} (h : Spaced gap times) (hlast : ∀ s ∈ times.head?, s + gap ≤ t) :
    Spaced gap (t :: times) :=
  Rested.cons h hlast

/-- The first of them are that much earlier. -/
lemma add_mul_length_le {t a : ℕ} (h : Spaced gap (t :: times)) (ha : ∀ s ∈ t :: times, a ≤ s) :
    a + gap * times.length ≤ t := by
  induction times generalizing t with
  | nil => simpa using ha t
  | cons s rest ih =>
      obtain ⟨hfirst, hrest⟩ := List.pairwise_cons.mp h
      have hle := ih hrest fun r hr => ha r (List.mem_cons_of_mem t hr)
      have hgap := hfirst s List.mem_cons_self
      rw [List.length_cons, Nat.mul_succ]
      omega

/-- **There are few of them in any window.** -/
theorem length_le_of_window {a T : ℕ} (h : Spaced gap times) (hgap : 0 < gap)
    (hwindow : ∀ t ∈ times, a ≤ t ∧ t < a + T) : times.length ≤ T / gap + 1 := by
  cases times with
  | nil => simp
  | cons t rest =>
      have hle := h.add_mul_length_le fun s hs => (hwindow s hs).1
      have hlt := (hwindow t List.mem_cons_self).2
      have hdiv : rest.length ≤ T / gap := by
        rw [Nat.le_div_iff_mul_le hgap, Nat.mul_comm]
        omega
      rw [List.length_cons]
      omega

lemma length_window_le (h : Spaced gap times) (hgap : 0 < gap) (a T : ℕ) :
    (times.filter fun t => decide (a ≤ t ∧ t < a + T)).length ≤ T / gap + 1 := by
  have hwindow : Spaced gap (times.filter fun t => decide (a ≤ t ∧ t < a + T)) := h.filter _
  exact hwindow.length_le_of_window hgap fun t ht => of_decide_eq_true (List.mem_filter.mp ht).2

end Spaced

namespace Rested

variable {α : Type*} {time pause : α → ℕ} {xs : List α} {gap : ℕ}

/-- Where the pauses are long, the times lie apart. -/
lemma spaced (h : Rested time pause xs) (hgap : ∀ x ∈ xs, gap ≤ pause x) :
    Spaced gap (xs.map time) := by
  refine List.pairwise_map.mpr (List.Pairwise.imp_of_mem ?_ h)
  intro x y _ hy hxy
  have := hgap y hy
  omega

/-- **A window holds few entries, but for those with a short pause.** -/
theorem length_window_le (h : Rested time pause xs) (hgap : 0 < gap) (a T : ℕ) :
    (xs.filter fun x => decide (a ≤ time x ∧ time x < a + T)).length ≤
      (xs.countP fun x => decide (pause x < gap)) + (T / gap + 1) := by
  let long := xs.filter fun x => !decide (pause x < gap)
  have hlong : Spaced gap (long.map time) :=
    spaced (h.filter _) fun x hx => by simpa using (List.mem_filter.mp hx).2
  have hwindow := hlong.length_window_le hgap a T
  rw [List.filter_map, List.length_map, ← List.countP_eq_length_filter] at hwindow
  rw [← List.countP_eq_length_filter, List.countP_eq_countP_filter_add xs _
    fun x => decide (pause x < gap)]
  refine Nat.add_le_add ?_ hwindow
  rw [List.countP_filter]
  exact List.countP_mono_left fun x _ hx => by simp_all

end Rested

end ReactorRuntime
