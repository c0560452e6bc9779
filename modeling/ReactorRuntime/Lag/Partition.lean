import ReactorRuntime.Library.Bits
import ReactorRuntime.Lag.Buckets

/-!
# The buckets partition the 64-bit values

`Lag.Buckets` has the bucket functions on the natural numbers.  The code computes them on machine
words (`reactor_lag.h:59-73`): values, bucket numbers and edges are 64 bits wide, the exponent is an
`unsigned` of 32 bits, every operation wraps at its width, and a shift must stay below the width of
what it shifts.  `Word.indexOf`, `Word.upperUs` and `Word.lowerUs` are the code's expressions on
words, with a result only if each shift and the count of the leading zeros have one.

They have one for every value and every bucket, and it is the one on the natural numbers
(`Word.indexOf_toNat`, `Word.upperUs_toNat`, `Word.lowerUs_toNat`): no shift is out of range, and no
subtraction, sum or edge wraps.
-/

namespace ReactorRuntime

namespace LagSnapshot

namespace Word

/-- `index_of`. -/
def indexOf (us : BitVec 64) : Option (BitVec 64) := do
  if us < 4#64 then
    return us
  let top ← Bits.shl 1#64 32#32
  if top ≤ us then
    return BitVec.ofNat 64 (buckets - 1)
  let zeros ← Bits.clz 32 us
  let e := 63#32 - zeros
  let high ← Bits.shr us (e - 2#32)
  let sub := high &&& 3#64
  -- the sum is one of `unsigned` numbers until the last summand
  return (4#32 + (e - 2#32) * 4#32).setWidth 64 + sub

/-- `upper_us`. -/
def upperUs (i : BitVec 64) : Option (BitVec 64) := do
  if i < 4#64 then
    return i + 1#64
  let k := i - 4#64
  let e := (k / 4#64).setWidth 32 + 2#32
  Bits.shl (5#64 + k % 4#64) (e - 2#32)

/-- `lower_us`. -/
def lowerUs (i : BitVec 64) : Option (BitVec 64) :=
  if i = 0#64 then some 0#64 else upperUs (i - 1#64)

variable {us i : BitVec 64}

/-! ## The bucket of a word -/

/-- The place of the leading bit, as the code computes it. -/
lemma exists_exponent (h : 4 ≤ us.toNat) :
    ∃ zeros, Bits.clz 32 us = some zeros ∧
      (63#32 - zeros - 2#32).toNat = us.toNat.log2 - 2 := by
  have hne : us ≠ 0#64 := by
    rintro rfl
    exact absurd h (by decide)
  have hlog : 2 ≤ us.toNat.log2 := (Nat.le_log2 (by omega)).mpr h
  obtain ⟨zeros, hzeros, hsum⟩ := Bits.exists_clz hne (v := 32) (by decide)
  refine ⟨zeros, hzeros, ?_⟩
  bv_omega

/-- The last line of `index_of` does not wrap. -/
lemma sum_toNat {e : BitVec 32} {sub : BitVec 64} (he : e.toNat < 64) (hsub : sub.toNat < 4) :
    ((4#32 + e * 4#32).setWidth 64 + sub).toNat = 4 + e.toNat * 4 + sub.toNat := by
  bv_omega

lemma indexOf_of_small (h : us.toNat < 4) : indexOf us = some us := if_pos h

lemma indexOf_of_large (h : 4294967296 ≤ us.toNat) : indexOf us = some 123#64 := by
  have hsmall : ¬us < 4#64 := fun hlt => by bv_omega
  have htop : 4294967296#64 ≤ us := h
  show (if us < 4#64 then _ else if 4294967296#64 ≤ us then some 123#64 else _) = _
  rw [if_neg hsmall, if_pos htop]

/-- Between the exact buckets and the open end, the code's steps one after the other. -/
lemma indexOf_of_between {zeros : BitVec 32} {high : BitVec 64} (h : 4 ≤ us.toNat)
    (hlt : us.toNat < 4294967296) (hzeros : Bits.clz 32 us = some zeros)
    (hhigh : Bits.shr us (63#32 - zeros - 2#32) = some high) :
    indexOf us =
      some ((4#32 + (63#32 - zeros - 2#32) * 4#32).setWidth 64 + (high &&& 3#64)) := by
  have hsmall : ¬us < 4#64 := fun hless => by bv_omega
  have htop : ¬4294967296#64 ≤ us := fun hle => by bv_omega
  show (if us < 4#64 then _ else if 4294967296#64 ≤ us then _ else
    (Bits.clz 32 us).bind fun z => (Bits.shr us (63#32 - z - 2#32)).bind fun y => _) = _
  rw [if_neg hsmall, if_neg htop, hzeros, Option.bind_some, hhigh, Option.bind_some]
  rfl

/-- **`index_of` is defined on every word and computes the bucket.** -/
theorem indexOf_toNat (us : BitVec 64) :
    (indexOf us).map BitVec.toNat = some (LagSnapshot.indexOf us.toNat) := by
  rcases Nat.lt_or_ge us.toNat 4 with hsmall | hsmall
  · rw [indexOf_of_small hsmall, LagSnapshot.indexOf_of_small hsmall, Option.map_some]
  rcases Nat.lt_or_ge us.toNat 4294967296 with hlt | hlarge
  · obtain ⟨zeros, hzeros, he⟩ := exists_exponent hsmall
    have hlog : us.toNat.log2 < 32 := (Nat.log2_lt (by omega)).mpr hlt
    obtain ⟨high, hhigh, hvalue⟩ :=
      Bits.exists_shr (x := us) (n := 63#32 - zeros - 2#32) (by omega)
    have hsub : (high &&& 3#64).toNat = high.toNat &&& 3 := BitVec.toNat_and ..
    have hsublt : (high &&& 3#64).toNat < 4 := hsub ▸ Nat.lt_succ_of_le Nat.and_le_right
    rw [indexOf_of_between hsmall hlt hzeros hhigh, Option.map_some,
      sum_toNat (by omega) hsublt, hsub, hvalue, he]
    unfold LagSnapshot.indexOf
    rw [if_neg (by omega), if_neg (by omega)]
  · rw [indexOf_of_large hlarge, LagSnapshot.indexOf_of_large hlarge]
    rfl

/-! ## The edges of a bucket -/

lemma upperUs_of_small (h : i.toNat < 4) : upperUs i = some (i + 1#64) := if_pos h

lemma upperUs_of_large (h : 4 ≤ i.toNat) :
    upperUs i =
      Bits.shl (5#64 + (i - 4#64) % 4#64) (((i - 4#64) / 4#64).setWidth 32 + 2#32 - 2#32) :=
  if_neg fun hlt => by bv_omega

/-- **`upper_us` is defined for every bucket and computes its edge.** -/
theorem upperUs_toNat (h : i.toNat < buckets) :
    (upperUs i).map BitVec.toNat = some (LagSnapshot.upperUs i.toNat) := by
  have hlast : i.toNat < 124 := h
  rcases Nat.lt_or_ge i.toNat 4 with hsmall | hlarge
  · rw [upperUs_of_small hsmall, Option.map_some, LagSnapshot.upperUs, if_pos hsmall]
    congr 1
    bv_omega
  · obtain ⟨j, m, hlow, hhigh, heq⟩ := LagSnapshot.exists_exponent hlarge
    have hk : (i - 4#64).toNat = j * 4 + m - 4 := by bv_omega
    have hquot : ((i - 4#64) / 4#64).toNat = (j * 4 + m - 4) / 4 := by
      rw [BitVec.toNat_udiv, hk]
      rfl
    have hrem : ((i - 4#64) % 4#64).toNat = (j * 4 + m - 4) % 4 := by
      rw [BitVec.toNat_umod, hk]
      rfl
    have hbase : (5#64 + (i - 4#64) % 4#64).toNat = m + 1 := by bv_omega
    have hshift : (((i - 4#64) / 4#64).setWidth 32 + 2#32 - 2#32).toNat = j := by bv_omega
    -- no bit of the edge is shifted out: the largest one is 2³²
    have hle : LagSnapshot.upperUs i.toNat ≤ 4294967296 :=
      upperUs_last ▸ upperUs_strictMono.monotone (Nat.le_of_lt_succ hlast)
    rw [heq, upperUs_eq hlow hhigh] at hle ⊢
    obtain ⟨edge, hedge, hvalue⟩ :=
      Bits.exists_shl (x := 5#64 + (i - 4#64) % 4#64)
        (n := ((i - 4#64) / 4#64).setWidth 32 + 2#32 - 2#32)
        (by omega) (by rw [hbase, hshift]) (Nat.lt_of_le_of_lt hle (by decide))
    rw [upperUs_of_large hlarge, hedge, Option.map_some, hvalue]

/-- **`lower_us` is defined for every bucket and computes its edge.** -/
theorem lowerUs_toNat (h : i.toNat < buckets) :
    (lowerUs i).map BitVec.toNat = some (LagSnapshot.lowerUs i.toNat) := by
  unfold lowerUs LagSnapshot.lowerUs
  rcases Decidable.em (i = 0#64) with rfl | hne
  · rfl
  · have hpos : i.toNat ≠ 0 := fun hzero => hne (BitVec.eq_of_toNat_eq hzero)
    have hprev : (i - 1#64).toNat = i.toNat - 1 := by bv_omega
    rw [if_neg hne, if_neg hpos, ← hprev]
    apply upperUs_toNat
    omega

end Word

/-! ## The partition -/

/-- `n` buckets with the given edges sort the values below `top` into consecutive intervals, and all
others into the last one. -/
structure Partition (n top : ℕ) (indexOf lowerUs upperUs : ℕ → ℕ) : Prop where
  /-- Every value has a bucket. -/
  indexOf_lt : ∀ us, indexOf us < n
  /-- A value below the end is in the bucket whose edges enclose it, and in no other. -/
  indexOf_eq_iff : ∀ i us, us < top → (indexOf us = i ↔ lowerUs i ≤ us ∧ us < upperUs i)
  /-- The last bucket is open. -/
  indexOf_of_le : ∀ us, top ≤ us → indexOf us = n - 1
  upperUs_last : upperUs (n - 1) = top
  lowerUs_zero : lowerUs 0 = 0
  lowerUs_strictMono : StrictMono lowerUs
  upperUs_strictMono : StrictMono upperUs
  /-- Consecutive buckets share their edge. -/
  lowerUs_succ : ∀ i, lowerUs (i + 1) = upperUs i
  indexOf_mono : Monotone indexOf
  /-- A bucket that starts at 4 or later is at most a quarter of its lower edge wide. -/
  width_le : ∀ i, 4 ≤ lowerUs i → 4 * (upperUs i - lowerUs i) ≤ lowerUs i

/-- **The lag buckets partition the 64-bit values.**  On every word, `index_of` shifts within range
and returns a bucket; for every bucket, so do `upper_us` and `lower_us` and return its edges; and
with these edges the buckets are a partition that ends at 2³². -/
theorem lag_buckets_partition :
    (∀ us : BitVec 64, (Word.indexOf us).map BitVec.toNat = some (indexOf us.toNat)) ∧
    (∀ i : BitVec 64, i.toNat < buckets →
      (Word.lowerUs i).map BitVec.toNat = some (lowerUs i.toNat) ∧
      (Word.upperUs i).map BitVec.toNat = some (upperUs i.toNat)) ∧
    Partition buckets 4294967296 indexOf lowerUs upperUs := by
  refine ⟨Word.indexOf_toNat, fun i h => ⟨Word.lowerUs_toNat h, Word.upperUs_toNat h⟩, ?_⟩
  constructor
  · exact indexOf_lt
  · intro i us hlt
    exact indexOf_eq_iff hlt
  · intro us hle
    exact indexOf_of_large hle
  · exact upperUs_last
  · rfl
  · exact lowerUs_strictMono
  · exact upperUs_strictMono
  · exact lowerUs_succ
  · exact indexOf_mono
  · intro i hlow
    exact width_le hlow

end LagSnapshot

end ReactorRuntime
