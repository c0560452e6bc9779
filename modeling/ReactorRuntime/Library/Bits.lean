import Mathlib.Algebra.Group.Nat.Defs
import Mathlib.Data.Nat.Notation
import Mathlib.Tactic.Lemma

/-!
# Shifts and leading zeros of fixed-width numbers

In C++ a shift by the width of the number or more has no defined result, and neither has the count
of the leading zeros of 0.  The operations here return nothing in these cases.  A function written
with them then returns a value only if each of its shifts is in range.  Addition, subtraction and
multiplication of unsigned numbers wrap, and for them the operations of `BitVec` are used.
-/

namespace ReactorRuntime

namespace Bits

variable {w v : ℕ} {x : BitVec w} {n : BitVec v}

/-- `x << n`. -/
def shl (x : BitVec w) (n : BitVec v) : Option (BitVec w) :=
  if n.toNat < w then some (x <<< n.toNat) else none

/-- `x >> n`. -/
def shr (x : BitVec w) (n : BitVec v) : Option (BitVec w) :=
  if n.toNat < w then some (x >>> n.toNat) else none

/-- The number of leading zeros, as a number of width `v`. -/
def clz (v : ℕ) (x : BitVec w) : Option (BitVec v) :=
  if x = 0#w then none else some (x.clz.setWidth v)

/-- A shift to the left is exact if no bit is lost. -/
lemma exists_shl {a : ℕ} (hn : n.toNat < w) (ha : x.toNat * 2 ^ n.toNat = a) (hlt : a < 2 ^ w) :
    ∃ y, shl x n = some y ∧ y.toNat = a := by
  refine ⟨x <<< n.toNat, if_pos hn, ?_⟩
  rw [BitVec.toNat_shiftLeft, Nat.shiftLeft_eq, ha]
  exact Nat.mod_eq_of_lt hlt

lemma exists_shr (hn : n.toNat < w) : ∃ y, shr x n = some y ∧ y.toNat = x.toNat >>> n.toNat :=
  ⟨x >>> n.toNat, if_pos hn, BitVec.toNat_ushiftRight ..⟩

/-- The leading zeros end where the leading bit is. -/
lemma toNat_clz (hne : x ≠ 0#w) : x.clz.toNat + x.toNat.log2 + 1 = w := by
  have hpos : x.toNat ≠ 0 := fun h => hne (BitVec.eq_of_toNat_eq h)
  have hw : 0 < w := by
    apply Nat.pos_of_ne_zero
    rintro rfl
    exact hne (BitVec.eq_nil x)
  have hlow : w - 1 - x.clz.toNat ≤ x.toNat.log2 :=
    (Nat.le_log2 hpos).mpr (BitVec.two_pow_sub_clz_le_toNat_of_ne_zero hw hne)
  have hhigh : x.toNat.log2 < w - x.clz.toNat :=
    (Nat.log2_lt hpos).mpr BitVec.toNat_lt_two_pow_sub_clz
  omega

lemma exists_clz (hne : x ≠ 0#w) (hv : w < 2 ^ v) :
    ∃ c : BitVec v, clz v x = some c ∧ c.toNat + x.toNat.log2 + 1 = w := by
  have hc := toNat_clz hne
  refine ⟨x.clz.setWidth v, if_neg hne, ?_⟩
  rw [BitVec.toNat_setWidth, Nat.mod_eq_of_lt (by omega)]
  exact hc

end Bits

end ReactorRuntime
