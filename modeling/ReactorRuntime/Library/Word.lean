import Mathlib.Data.Nat.Notation
import Mathlib.Tactic.Lemma

/-!
# Unsigned 64-bit numbers

The counters of the program are unsigned and 64 bits wide, and adding to the largest one gives 0.
Most of them never come near that; where a result rests on it, or fails for it, the model has the
numbers below `word` and the operations that wrap.
-/

namespace ReactorRuntime

/-- The number of values. -/
def word : ℕ := 18446744073709551616

/-- The largest value. -/
def wordMax : ℕ := 18446744073709551615

/-- Adding 1 wraps. -/
def fetchAdd (value : ℕ) : ℕ := if value = wordMax then 0 else value + 1

/-- Subtracting 1 wraps. -/
def fetchSub : ℕ → ℕ
  | 0 => wordMax
  | value + 1 => value

/-- Addition. -/
def addWord (a b : ℕ) : ℕ := (a + b) % word

/-- Subtraction. -/
def subWord (a b : ℕ) : ℕ := (a + (word - b)) % word

lemma addWord_mod (a b : ℕ) : addWord (a % word) b = (a + b) % word := Nat.mod_add_mod ..

lemma addWord_of_lt {a b : ℕ} (h : a + b < word) : addWord a b = a + b := Nat.mod_eq_of_lt h

/-- A difference does not depend on how often the larger number has wrapped. -/
lemma subWord_mod (a b : ℕ) : subWord ((a + b) % word) (a % word) = b % word := by
  unfold subWord word
  omega

lemma fetchAdd_of_ne {value : ℕ} (h : value ≠ wordMax) : fetchAdd value = value + 1 := if_neg h

lemma fetchAdd_mod (n : ℕ) : fetchAdd (n % word) = (n + 1) % word := by
  unfold fetchAdd wordMax word
  split <;> omega

lemma fetchSub_of_pos {value : ℕ} (hpos : 0 < value) : fetchSub value = value - 1 := by
  cases value with
  | zero => exact absurd hpos (Nat.lt_irrefl 0)
  | succ value => rfl

/-- Numbers less than a word apart are told apart by their remainders. -/
lemma eq_of_mod_word {a b : ℕ} (h : a % word = b % word) (hle : a ≤ b) (hlt : b < a + word) :
    a = b := by
  unfold word at *
  omega

end ReactorRuntime
