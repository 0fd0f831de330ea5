import Mathlib.Tactic
import Mathlib.Data.Nat.Bitwise

/-!
# Masks and fields of machine words

Words are natural numbers below `2 ^ 64`.  A mask of consecutive ones is `2 ^ n - 2 ^ k`, and
`and_highMask` turns a conjunction with it into the division and remainder that `omega` knows.
-/

namespace Lib

lemma testBit_highMask {n k : ℕ} (hk : k ≤ n) (i : ℕ) :
    (2 ^ n - 2 ^ k).testBit i = (decide (k ≤ i) && decide (i < n)) := by
  have hsplit : 2 ^ n - 2 ^ k = (2 ^ (n - k) - 1) <<< k := by
    rw [Nat.shiftLeft_eq, Nat.sub_mul, Nat.one_mul, ← pow_add, Nat.sub_add_cancel hk]
  rw [hsplit, Nat.testBit_shiftLeft, Nat.testBit_two_pow_sub_one]
  by_cases hki : k ≤ i
  · have : (i - k < n - k) ↔ i < n := by omega
    simp [hki, this]
  · simp [hki]

/-- Conjunction with a block of ones cuts the field out and leaves it where it was. -/
lemma and_highMask {n k : ℕ} (hk : k ≤ n) (x : ℕ) :
    x &&& (2 ^ n - 2 ^ k) = x % 2 ^ n / 2 ^ k * 2 ^ k := by
  refine Nat.eq_of_testBit_eq fun i => ?_
  rw [Nat.testBit_and, testBit_highMask hk, Nat.testBit_mul_two_pow, Nat.testBit_div_two_pow,
    Nat.testBit_mod_two_pow]
  by_cases hki : k ≤ i
  · have : i - k + k = i := Nat.sub_add_cancel hki
    simp [hki, this, Bool.and_comm]
  · simp [hki]

/-- A field that starts at bit `k` and a value below `2 ^ k` do not overlap, so or is addition. -/
lemma or_eq_add_of_lt {k b : ℕ} (a : ℕ) (hb : b < 2 ^ k) : a * 2 ^ k ||| b = a * 2 ^ k + b := by
  rw [Nat.mul_comm, Nat.two_pow_add_eq_or_of_lt hb]

end Lib
