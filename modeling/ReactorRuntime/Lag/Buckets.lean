import Mathlib.Algebra.Group.Nat.Defs
import Mathlib.Data.Nat.Notation
import Mathlib.Order.Monotone.Basic
import Mathlib.Tactic.Lemma

/-!
# The buckets of a lag histogram

`LagSnapshot` (`reactor_lag.h:51-74`) sorts latenesses, in microseconds, into 124 buckets: 0 to 3 µs
each for itself, then four buckets for every power of two up to 2³².  `index_of` finds the bucket of
a value with its leading bit and the two bits after it, `upper_us` gives the exclusive upper edge of
a bucket, and `lower_us` takes the upper edge of the bucket before.

A value from 4 to 2³² is `m` times a power of two and a rest, with `m` from 4 to 7 (`leading`); its
bucket and the edges are read off that (`indexOf_eq`, `upperUs_eq`, `lowerUs_eq`).  The edges
increase (`lowerUs_strictMono`) and every value lies between those of its bucket, so that the
buckets are the intervals between consecutive edges (`indexOf_eq_iff`).
-/

namespace ReactorRuntime

namespace LagSnapshot

/-- 4 exact buckets, then 4 for each power of two. -/
def buckets : ℕ := 4 + 30 * 4

/-- The bucket of a value. -/
def indexOf (us : ℕ) : ℕ :=
  if us < 4 then us
  else if 4294967296 ≤ us then buckets - 1
  else
    -- `63 - clz(us)` is the place of the leading bit
    let e := us.log2
    let sub := (us >>> (e - 2)) &&& 3
    4 + (e - 2) * 4 + sub

/-- The exclusive upper edge of a bucket. -/
def upperUs (i : ℕ) : ℕ :=
  if i < 4 then i + 1
  else
    let k := i - 4
    let e := k / 4 + 2
    (5 + k % 4) <<< (e - 2)

/-- The lower edge of a bucket. -/
def lowerUs (i : ℕ) : ℕ := if i = 0 then 0 else upperUs (i - 1)

variable {us i j m : ℕ}

/-! ## The leading bits -/

/-- The exponent `j` and the leading bits `m` of a value from 4 up. -/
structure Leading (us j m : ℕ) : Prop where
  low : 4 ≤ m
  high : m < 8
  floor : m * 2 ^ j ≤ us
  ceil : us < (m + 1) * 2 ^ j

lemma leading (h : 4 ≤ us) : Leading us (us.log2 - 2) (us >>> (us.log2 - 2)) := by
  have hne : us ≠ 0 := by omega
  have hlog : 2 ≤ us.log2 := (Nat.le_log2 hne).mpr h
  obtain ⟨j, hj⟩ := Nat.exists_eq_add_of_le hlog
  have hfloor : 2 ^ (2 + j) ≤ us := hj ▸ Nat.log2_self_le hne
  have hceil : us < 2 ^ (2 + j + 1) := hj ▸ Nat.lt_log2_self
  have hpos : 0 < 2 ^ j := Nat.two_pow_pos j
  have hexp : us.log2 - 2 = j := by omega
  rw [hexp, Nat.shiftRight_eq_div_pow]
  constructor
  · rw [Nat.le_div_iff_mul_le hpos]
    calc
      4 * 2 ^ j = 2 ^ (2 + j) := by rw [Nat.pow_add]
      _ ≤ us := hfloor
  · rw [Nat.div_lt_iff_lt_mul hpos]
    calc
      us < 2 ^ (2 + j + 1) := hceil
      _ = 8 * 2 ^ j := by rw [Nat.pow_succ, Nat.pow_add]; omega
  · exact Nat.div_mul_le_self us (2 ^ j)
  · exact Nat.lt_mul_of_div_lt (Nat.lt_succ_self _) hpos

lemma indexOf_of_small (h : us < 4) : indexOf us = us := if_pos h

lemma indexOf_of_large (h : 4294967296 ≤ us) : indexOf us = 123 := by
  unfold indexOf
  rw [if_neg (by omega), if_pos h]
  rfl

lemma indexOf_eq (h : 4 ≤ us) (hlt : us < 4294967296) :
    indexOf us = (us.log2 - 2) * 4 + us >>> (us.log2 - 2) := by
  have hlead := leading h
  have hlow := hlead.low
  have hhigh := hlead.high
  unfold indexOf
  rw [if_neg (by omega), if_neg (by omega)]
  show 4 + (us.log2 - 2) * 4 + ((us >>> (us.log2 - 2)) &&& 3) = _
  have hand : (us >>> (us.log2 - 2)) &&& 3 = us >>> (us.log2 - 2) - 4 := by
    rw [show (3 : ℕ) = 2 ^ 2 - 1 from rfl, Nat.and_two_pow_sub_one_eq_mod]
    omega
  omega

lemma upperUs_eq (hlow : 4 ≤ m) (hhigh : m < 8) : upperUs (j * 4 + m) = (m + 1) * 2 ^ j := by
  unfold upperUs
  rw [if_neg (by omega)]
  show (5 + (j * 4 + m - 4) % 4) <<< ((j * 4 + m - 4) / 4 + 2 - 2) = _
  have hexp : (j * 4 + m - 4) / 4 + 2 - 2 = j := by omega
  have hsub : 5 + (j * 4 + m - 4) % 4 = m + 1 := by omega
  rw [hexp, hsub, Nat.shiftLeft_eq]

/-- The bucket of a value in terms of its leading bits. -/
lemma exists_leading (h : 4 ≤ us) (hlt : us < 4294967296) :
    ∃ j m, Leading us j m ∧ j ≤ 29 ∧ indexOf us = j * 4 + m := by
  refine ⟨_, _, leading h, ?_, indexOf_eq h hlt⟩
  have hlog : us.log2 < 32 := (Nat.log2_lt (by omega)).mpr hlt
  omega

/-! ## Every value has a bucket -/

lemma indexOf_lt (us : ℕ) : indexOf us < buckets := by
  show indexOf us < 124
  rcases Nat.lt_or_ge us 4 with hsmall | hsmall
  · rw [indexOf_of_small hsmall]
    omega
  rcases Nat.lt_or_ge us 4294967296 with hlt | hlarge
  · obtain ⟨j, m, hlead, hj, heq⟩ := exists_leading hsmall hlt
    have hhigh := hlead.high
    omega
  · rw [indexOf_of_large hlarge]
    omega

/-! ## The edge above a value -/

lemma upperUs_last : upperUs 123 = 4294967296 := by decide

/-- A value below 2³² lies below the edge of its bucket. -/
lemma lt_upperUs (hlt : us < 4294967296) : us < upperUs (indexOf us) := by
  rcases Nat.lt_or_ge us 4 with hsmall | hsmall
  · rw [indexOf_of_small hsmall, upperUs, if_pos hsmall]
    exact Nat.lt_succ_self us
  · obtain ⟨j, m, hlead, -, heq⟩ := exists_leading hsmall hlt
    rw [heq, upperUs_eq hlead.low hlead.high]
    exact hlead.ceil

/-- The edge is above a value of 4 µs or more by at most a quarter of it. -/
lemma upperUs_le (h : 4 ≤ us) : 4 * upperUs (indexOf us) ≤ 5 * us := by
  rcases Nat.lt_or_ge us 4294967296 with hlt | hlarge
  · obtain ⟨j, m, hlead, -, heq⟩ := exists_leading h hlt
    rw [heq, upperUs_eq hlead.low hlead.high]
    have hfloor := hlead.floor
    have hwidth : 4 * 2 ^ j ≤ m * 2 ^ j := Nat.mul_le_mul_right _ hlead.low
    have hedge : (m + 1) * 2 ^ j = m * 2 ^ j + 2 ^ j := Nat.succ_mul ..
    omega
  · rw [indexOf_of_large hlarge, upperUs_last]
    omega

/-! ## The edges -/

lemma lowerUs_succ (i : ℕ) : lowerUs (i + 1) = upperUs i := rfl

lemma lowerUs_of_small (h : i < 4) : lowerUs i = i := by
  cases i with
  | zero => rfl
  | succ i =>
    rw [lowerUs_succ, upperUs, if_pos (by omega)]

lemma lowerUs_eq (hlow : 4 ≤ m) (hhigh : m < 8) : lowerUs (j * 4 + m) = m * 2 ^ j := by
  rcases Nat.lt_or_eq_of_le hlow with hlt | rfl
  · -- the bucket before has the same exponent
    have hprev : j * 4 + m = j * 4 + (m - 1) + 1 := by omega
    have hm : m - 1 + 1 = m := by omega
    rw [hprev, lowerUs_succ, upperUs_eq (by omega) (by omega), hm]
  · -- the bucket before is the last of the exponent before
    cases j with
    | zero => rfl
    | succ j =>
      have hprev : (j + 1) * 4 + 4 = j * 4 + 7 + 1 := by omega
      rw [hprev, lowerUs_succ, upperUs_eq (by omega) (by omega), Nat.pow_succ]
      omega

/-- Every bucket from the fifth on has an exponent and leading bits. -/
lemma exists_exponent (h : 4 ≤ i) : ∃ j m, 4 ≤ m ∧ m < 8 ∧ i = j * 4 + m :=
  ⟨i / 4 - 1, i % 4 + 4, by omega, by omega, by omega⟩

/-- No bucket is empty. -/
lemma lowerUs_lt_upperUs (i : ℕ) : lowerUs i < upperUs i := by
  rcases Nat.lt_or_ge i 4 with hsmall | hlarge
  · rw [lowerUs_of_small hsmall, upperUs, if_pos hsmall]
    exact Nat.lt_succ_self i
  · obtain ⟨j, m, hlow, hhigh, rfl⟩ := exists_exponent hlarge
    rw [lowerUs_eq hlow hhigh, upperUs_eq hlow hhigh]
    exact Nat.mul_lt_mul_of_pos_right (Nat.lt_succ_self m) (Nat.two_pow_pos j)

lemma lowerUs_strictMono : StrictMono lowerUs := strictMono_nat_of_lt_succ lowerUs_lt_upperUs

lemma upperUs_strictMono : StrictMono upperUs :=
  fun _ _ hlt => lowerUs_strictMono (Nat.succ_lt_succ hlt)

/-- A bucket that starts at 4 µs or later is at most a quarter of its lower edge wide. -/
lemma width_le (h : 4 ≤ lowerUs i) : 4 * (upperUs i - lowerUs i) ≤ lowerUs i := by
  have hlarge : 4 ≤ i := by
    rcases Nat.lt_or_ge i 4 with hsmall | hlarge
    · rw [lowerUs_of_small hsmall] at h
      exact h
    · exact hlarge
  obtain ⟨j, m, hlow, hhigh, rfl⟩ := exists_exponent hlarge
  rw [lowerUs_eq hlow hhigh, upperUs_eq hlow hhigh, Nat.succ_mul m, Nat.add_sub_cancel_left]
  exact Nat.mul_le_mul_right _ hlow

/-- A value is not below its bucket. -/
lemma lowerUs_le (us : ℕ) : lowerUs (indexOf us) ≤ us := by
  rcases Nat.lt_or_ge us 4 with hsmall | hsmall
  · rw [indexOf_of_small hsmall, lowerUs_of_small hsmall]
  rcases Nat.lt_or_ge us 4294967296 with hlt | hlarge
  · obtain ⟨j, m, hlead, -, heq⟩ := exists_leading hsmall hlt
    rw [heq, lowerUs_eq hlead.low hlead.high]
    exact hlead.floor
  · rw [indexOf_of_large hlarge]
    calc
      lowerUs 123 ≤ upperUs 123 := Nat.le_of_lt (lowerUs_lt_upperUs 123)
      _ = 4294967296 := upperUs_last
      _ ≤ us := hlarge

/-- **Later buckets hold larger values.** -/
theorem indexOf_mono : Monotone indexOf := by
  intro a b hab
  rcases Nat.lt_or_ge b 4294967296 with hb | hb
  · -- the bucket of `a` starts below the end of the bucket of `b`
    have hedge : lowerUs (indexOf a) < lowerUs (indexOf b + 1) :=
      calc
        lowerUs (indexOf a) ≤ a := lowerUs_le a
        _ ≤ b := hab
        _ < upperUs (indexOf b) := lt_upperUs hb
    exact Nat.lt_succ_iff.mp (lowerUs_strictMono.lt_iff_lt.mp hedge)
  · rw [indexOf_of_large hb]
    exact Nat.le_of_lt_succ (indexOf_lt a)

/-- **The bucket of a value below 2³² is the one whose edges enclose it.** -/
theorem indexOf_eq_iff (hlt : us < 4294967296) :
    indexOf us = i ↔ lowerUs i ≤ us ∧ us < upperUs i := by
  constructor
  · rintro rfl
    exact ⟨lowerUs_le us, lt_upperUs hlt⟩
  · -- two buckets that enclose one value start below each other's end
    rintro ⟨hfloor, hceil⟩
    have hle : indexOf us < i + 1 :=
      lowerUs_strictMono.lt_iff_lt.mp (Nat.lt_of_le_of_lt (lowerUs_le us) hceil)
    have hge : i < indexOf us + 1 :=
      lowerUs_strictMono.lt_iff_lt.mp (Nat.lt_of_le_of_lt hfloor (lt_upperUs hlt))
    omega

end LagSnapshot

end ReactorRuntime
