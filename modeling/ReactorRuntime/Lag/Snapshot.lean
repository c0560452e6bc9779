import Mathlib.Algebra.Order.Floor.Semiring
import Mathlib.Data.Rat.Floor
import ReactorRuntime.Lag.Buckets
import ReactorRuntime.Library.OrderStatistic
import ReactorRuntime.Library.Word

/-!
# Percentiles of the lag

A `LagProbe` counts the latenesses of its wakes in the buckets of a `LagSnapshot`, and two snapshots
are subtracted to look at the time between them (`reactor_lag.h:76-100`, `181-198`).  A percentile
is found by a scan over the buckets.  What it reports is the upper edge of the bucket that holds the
order statistic of the window (`lag_percentile`): the counters have not lost anything to the
subtraction, and since later buckets hold larger values the scan stops where the sorted latenesses
would.

The counters are unsigned 64-bit numbers, and wrap.  The fraction is an exact rational, where the
code has a `double`.
-/

namespace ReactorRuntime

/-- `LagSnapshot`, and the counters of a probe. -/
structure LagSnapshot where
  count : Fin LagSnapshot.buckets → ℕ
  wakes : ℕ
  sumUs : ℕ
  maxUs : ℕ

namespace LagSnapshot

/-! ## The code -/

def empty : LagSnapshot where
  count _ := 0
  wakes := 0
  sumUs := 0
  maxUs := 0

/-- The bucket of a value, as an index of `count`. -/
def bucketOf (us : ℕ) : Fin buckets := ⟨indexOf us, indexOf_lt us⟩

/-- What `tick()` does to the counters for a wake that is `us` microseconds late. -/
def record (s : LagSnapshot) (us : ℕ) : LagSnapshot where
  count := Function.update s.count (bucketOf us) (addWord (s.count (bucketOf us)) 1)
  wakes := addWord s.wakes 1
  sumUs := addWord s.sumUs us
  maxUs := if s.maxUs < us then us else s.maxUs

/-- The counters after a number of wakes. -/
def recordAll (latenesses : List ℕ) : LagSnapshot := latenesses.foldl record empty

/-- `since(earlier)` -/
def since (s earlier : LagSnapshot) : LagSnapshot where
  count i := subWord (s.count i) (earlier.count i)
  wakes := subWord s.wakes earlier.wakes
  sumUs := subWord s.sumUs earlier.sumUs
  maxUs := s.maxUs

/-- `total` -/
def total (s : LagSnapshot) : ℕ :=
  (List.finRange buckets).foldl (fun total i => addWord total (s.count i)) 0

/-- `need`: the fraction `q` of `total`, rounded up, and at least 1. -/
def need (q : ℚ) (total : ℕ) : ℕ :=
  let need := (q * total).floor.toNat
  let need := if (need : ℚ) < q * total then need + 1 else need
  if need = 0 then 1 else need

/-- The loop over the buckets, from bucket `i` on. -/
def scan (s : LagSnapshot) (need i seen : ℕ) : ℕ :=
  if h : i < buckets then
    let seen := addWord seen (s.count ⟨i, h⟩)
    if need ≤ seen then upperUs i else s.scan need (i + 1) seen
  else upperUs (buckets - 1)
termination_by buckets - i

/-- `quantile_upper_us(q)` -/
def quantileUpperUs (s : LagSnapshot) (q : ℚ) : ℕ :=
  if s.total = 0 then 0 else s.scan (need q s.total) 0 0

/-! ## The counters -/

/-- The counters say what was recorded. -/
structure Records (s : LagSnapshot) (latenesses : List ℕ) : Prop where
  count : ∀ i, s.count i = latenesses.countP (fun us => decide (bucketOf us = i)) % word
  wakes : s.wakes = latenesses.length % word
  sumUs : s.sumUs = latenesses.sum % word

lemma Records.record {s : LagSnapshot} {latenesses : List ℕ} (h : s.Records latenesses) (us : ℕ) :
    (s.record us).Records (latenesses ++ [us]) := by
  refine ⟨fun i => ?_, ?_, ?_⟩
  · rw [List.countP_append, List.countP_singleton]
    show Function.update s.count (bucketOf us) _ i = _
    rcases eq_or_ne i (bucketOf us) with rfl | hne
    · rw [Function.update_self, h.count, addWord_mod]
      simp
    · rw [Function.update_of_ne hne, h.count]
      simp [Ne.symm hne]
  · rw [List.length_append, List.length_singleton, ← addWord_mod, ← h.wakes]
    rfl
  · rw [List.sum_append, List.sum_singleton, ← addWord_mod, ← h.sumUs]
    rfl

lemma records_recordAll (latenesses : List ℕ) : (recordAll latenesses).Records latenesses := by
  induction latenesses using List.reverseRecOn with
  | nil => exact ⟨fun _ => rfl, rfl, rfl⟩
  | append_singleton latenesses us ih =>
      rw [recordAll, List.foldl_append]
      exact ih.record us

/-- The difference of two snapshots says what was recorded between them. -/
lemma Records.since {s earlier : LagSnapshot} {before window : List ℕ}
    (h : s.Records (before ++ window)) (hearlier : earlier.Records before) :
    (s.since earlier).Records window := by
  refine ⟨fun i => ?_, ?_, ?_⟩
  · show subWord (s.count i) (earlier.count i) = _
    rw [h.count, hearlier.count, List.countP_append, subWord_mod]
  · show subWord s.wakes earlier.wakes = _
    rw [h.wakes, hearlier.wakes, List.length_append, subWord_mod]
  · show subWord s.sumUs earlier.sumUs = _
    rw [h.sumUs, hearlier.sumUs, List.sum_append, subWord_mod]

/-! ## The scan -/

section

variable {s : LagSnapshot} {window : List ℕ}

lemma Records.count_eq (h : s.Records window) (hlen : window.length < word) (i : Fin buckets) :
    s.count i = window.countP (fun us => decide (bucketOf us = i)) := by
  rw [h.count]
  exact Nat.mod_eq_of_lt (Nat.lt_of_le_of_lt List.countP_le_length hlen)

/-- The sum of the counters, with wrapping. -/
lemma foldl_addWord {β : Type*} (f : β → ℕ) (l : List β) (t : ℕ) :
    l.foldl (fun total i => addWord total (f i)) (t % word) = (t + (l.map f).sum) % word := by
  induction l generalizing t with
  | nil => rfl
  | cons i l ih =>
      rw [List.foldl_cons, addWord_mod, ih, List.map_cons, List.sum_cons, Nat.add_assoc]

lemma Records.total (h : s.Records window) (hlen : window.length < word) :
    s.total = window.length := by
  have hsum : ((List.finRange buckets).map s.count).sum = window.length := by
    rw [← Fin.sum_univ_def, ← sum_countP_eq_length bucketOf window]
    exact Finset.sum_congr rfl fun i _ => h.count_eq hlen i
  have hfold := foldl_addWord s.count (List.finRange buckets) 0
  rw [hsum, Nat.zero_add, Nat.mod_eq_of_lt hlen] at hfold
  exact hfold

/-- The fraction of a positive number, rounded up. -/
lemma need_eq {q : ℚ} {n : ℕ} (hq : 0 < q) (hn : 0 < n) : need q n = ⌈q * n⌉₊ := by
  have hpos : 0 < q * n := mul_pos hq (Nat.cast_pos.mpr hn)
  have hfloor : (q * n).floor.toNat = ⌊q * n⌋₊ := Int.floor_toNat (q * n)
  have hceil : 0 < ⌈q * n⌉₊ := Nat.ceil_pos.mpr hpos
  have hround : (if (⌊q * n⌋₊ : ℚ) < q * n then ⌊q * n⌋₊ + 1 else ⌊q * n⌋₊) = ⌈q * n⌉₊ := by
    split
    · rename_i hlt
      symm
      rw [Nat.ceil_eq_iff (Nat.succ_ne_zero _)]
      exact ⟨hlt, by exact_mod_cast (Nat.lt_floor_add_one (q * n)).le⟩
    · rename_i hge
      have heq : q * n = (⌊q * n⌋₊ : ℚ) := le_antisymm (not_lt.mp hge) (Nat.floor_le hpos.le)
      rw [heq, Nat.floor_natCast, Nat.ceil_natCast]
  unfold need
  rw [hfloor]
  show (if (if _ then _ else _) = 0 then 1 else (if _ then _ else _)) = _
  rw [hround, if_neg (Nat.ne_of_gt hceil)]

/-- One turn of the loop: `seen` becomes what is in the buckets up to `i`. -/
lemma Records.scan_step (h : s.Records window) (hlen : window.length < word) {need i : ℕ}
    (hi : i < buckets) :
    s.scan need i (window.countP (fun us => decide (indexOf us < i))) =
      if need ≤ window.countP (fun us => decide (indexOf us ≤ i)) then upperUs i
      else s.scan need (i + 1) (window.countP (fun us => decide (indexOf us ≤ i))) := by
  have hbucket : s.count ⟨i, hi⟩ = window.countP (fun us => decide (indexOf us = i)) := by
    rw [h.count_eq hlen]
    simp only [bucketOf, Fin.mk.injEq]
  have hseen : addWord (window.countP (fun us => decide (indexOf us < i))) (s.count ⟨i, hi⟩) =
      window.countP (fun us => decide (indexOf us ≤ i)) := by
    rw [hbucket, countP_le_eq_add indexOf window i]
    apply addWord_of_lt
    rw [← countP_le_eq_add indexOf window i]
    exact Nat.lt_of_le_of_lt List.countP_le_length hlen
  rw [LagSnapshot.scan, dif_pos hi, hseen]

/-- The scan, come to bucket `i` with what is in the buckets before it, goes on to the bucket of the
order statistic. -/
lemma Records.scan_eq (h : s.Records window) (hlen : window.length < word) {need v : ℕ}
    (hpos : 1 ≤ need) (hv : kthSmallest window need = some v) {i : ℕ} (hi : i ≤ indexOf v) :
    s.scan need i (window.countP (fun us => decide (indexOf us < i))) = upperUs (indexOf v) := by
  have hrank := le_countP_iff indexOf_mono hpos hv
  -- induction on the number of buckets that are left before that one
  induction hd : indexOf v - i generalizing i with
  | zero =>
      obtain rfl : i = indexOf v := by omega
      rw [h.scan_step hlen (indexOf_lt v), if_pos ((hrank _).mpr (Nat.le_refl _))]
  | succ d ih =>
      have hlt : i < indexOf v := by omega
      have hnot : ¬ need ≤ window.countP (fun us => decide (indexOf us ≤ i)) := fun hle =>
        absurd ((hrank i).mp hle) (Nat.not_le_of_lt hlt)
      rw [h.scan_step hlen (Nat.lt_trans hlt (indexOf_lt v)), if_neg hnot]
      have hnext := ih hlt (by omega)
      simp only [Nat.lt_succ_iff] at hnext
      exact hnext

end

/-! ## The percentile -/

variable {s : LagSnapshot} {window : List ℕ} {q : ℚ}

lemma Records.quantile_of_empty (h : s.Records []) : s.quantileUpperUs q = 0 :=
  if_pos (h.total (by decide))

/-- The scan of a window finds the bucket of its order statistic. -/
lemma Records.quantile (h : s.Records window) (hlen : window.length < word) (hn : window ≠ [])
    (hq : 0 < q) (hq1 : q ≤ 1) :
    ∃ v, kthSmallest window ⌈q * window.length⌉₊ = some v ∧
      s.quantileUpperUs q = upperUs (indexOf v) := by
  have hlength : 0 < window.length := List.length_pos_iff.mpr hn
  have hpos : 1 ≤ ⌈q * window.length⌉₊ :=
    Nat.ceil_pos.mpr (mul_pos hq (Nat.cast_pos.mpr hlength))
  have hle : ⌈q * window.length⌉₊ ≤ window.length := by
    apply Nat.ceil_le.mpr
    exact mul_le_of_le_one_left (Nat.cast_nonneg _) hq1
  obtain ⟨v, hv⟩ := exists_kthSmallest hpos hle
  refine ⟨v, hv, ?_⟩
  have hscan := h.scan_eq hlen hpos hv (Nat.zero_le _)
  have hzero : window.countP (fun us => decide (indexOf us < 0)) = 0 := by simp
  rw [hzero] at hscan
  rw [quantileUpperUs, h.total hlen, if_neg (Nat.ne_of_gt hlength), need_eq hq hlength]
  exact hscan

/-- `snapshot()`, taken after the first `position` wakes. -/
def snapshotAt (latenesses : List ℕ) (position : ℕ) : LagSnapshot :=
  recordAll (latenesses.take position)

/-- The latenesses between two positions. -/
def between (latenesses : List ℕ) (earlier later : ℕ) : List ℕ :=
  (latenesses.take later).drop earlier

lemma records_between (latenesses : List ℕ) {earlier later : ℕ} (horder : earlier ≤ later) :
    ((snapshotAt latenesses later).since (snapshotAt latenesses earlier)).Records
      (between latenesses earlier later) := by
  have hcut : latenesses.take later =
      latenesses.take earlier ++ between latenesses earlier later := by
    have hsplit := List.take_append_drop earlier (latenesses.take later)
    rw [List.take_take, Nat.min_eq_left horder] at hsplit
    exact hsplit.symm
  have hlater := records_recordAll (latenesses.take later)
  rw [hcut] at hlater
  unfold snapshotAt
  rw [hcut]
  exact hlater.since (records_recordAll _)

/-- **A percentile is the edge of its order statistic's bucket.**  For fewer than 2⁶⁴ latenesses,
two positions among them and a fraction `0 < q ≤ 1`: the difference of the two snapshots has in each
bucket the number of latenesses between the positions that fall in it, their number and their sum
modulo 2⁶⁴; and the percentile is the upper edge of the bucket of the `⌈q * n⌉`-th smallest of them
(0 if there are none), so that it is above that value if it is below 2³² µs, and, if it is 4 µs or
more, by at most a quarter. -/
theorem lag_percentile (latenesses : List ℕ) (hlen : latenesses.length < word) (earlier later : ℕ)
    (horder : earlier ≤ later) (hq : 0 < q) (hq1 : q ≤ 1) {d : LagSnapshot}
    (hd : d = (snapshotAt latenesses later).since (snapshotAt latenesses earlier))
    {window : List ℕ} (hwindow : window = between latenesses earlier later) :
    (∀ i, d.count i = window.countP (fun us => decide (bucketOf us = i))) ∧
      d.wakes = window.length ∧ d.sumUs = window.sum % word ∧
      (window = [] → d.quantileUpperUs q = 0) ∧
      (window ≠ [] → ∃ v, kthSmallest window ⌈q * window.length⌉₊ = some v ∧
        d.quantileUpperUs q = upperUs (indexOf v) ∧
        (v < 4294967296 → v < d.quantileUpperUs q) ∧
        (4 ≤ v → 4 * d.quantileUpperUs q ≤ 5 * v)) := by
  have h : d.Records window := by
    rw [hd, hwindow]
    exact records_between latenesses horder
  have hshort : window.length < word := by
    have hle : window.length ≤ latenesses.length := by
      rw [hwindow, between, List.length_drop, List.length_take]
      omega
    exact Nat.lt_of_le_of_lt hle hlen
  refine ⟨h.count_eq hshort, ?_, h.sumUs, ?_, ?_⟩
  · rw [h.wakes]
    exact Nat.mod_eq_of_lt hshort
  · rintro rfl
    exact h.quantile_of_empty
  · intro hn
    obtain ⟨v, hv, hedge⟩ := h.quantile hshort hn hq hq1
    refine ⟨v, hv, hedge, ?_, ?_⟩
    · intro hlt
      rw [hedge]
      exact lt_upperUs hlt
    · intro hfour
      rw [hedge]
      exact upperUs_le hfour

/-- Of five latenesses the last four: the 75th percentile is the third smallest of these, 900 µs,
reported as 1024. -/
theorem lag_percentile_at_five :
    kthSmallest (between [5, 900, 70, 1100, 3] 1 5) ⌈(3 / 4 : ℚ) * 4⌉₊ = some 900 ∧
      ((snapshotAt [5, 900, 70, 1100, 3] 5).since
        (snapshotAt [5, 900, 70, 1100, 3] 1)).quantileUpperUs (3 / 4) = 1024 := by
  have hceil : ⌈(3 / 4 : ℚ) * 4⌉₊ = 3 := by norm_num
  have hkth : kthSmallest (between [5, 900, 70, 1100, 3] 1 5) 3 = some 900 := by decide
  obtain ⟨-, -, -, -, hquantile⟩ := lag_percentile (q := 3 / 4) [5, 900, 70, 1100, 3] (by decide)
    1 5 (by decide) (by norm_num) (by norm_num) rfl rfl
  obtain ⟨v, hv, hedge, -, -⟩ := hquantile (by decide)
  have hlength : ((between [5, 900, 70, 1100, 3] 1 5).length : ℚ) = 4 := by norm_num [between]
  rw [hlength, hceil, hkth] at hv
  cases hv
  refine ⟨by rw [hceil]; exact hkth, ?_⟩
  rw [hedge]
  decide

end LagSnapshot

end ReactorRuntime
