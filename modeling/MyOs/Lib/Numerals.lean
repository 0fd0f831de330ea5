import Mathlib.Data.Nat.Digits.Lemmas
import Mathlib.Tactic

/-!
# Numerals

The numeral of a number in a base: its digits as they are written, the most significant one first, with
one digit for 0.  Mathlib's `Nat.digits` has them the other way around, and so has a program that takes
them off one by one into a scratch array (`scratch`); it has them all if the array is long enough
(`scratch_eq`).
-/

namespace Lib

open List

variable {b v d n : ℕ} {ds : List ℕ}

/-- The digits of a number as they are written. -/
def numeral (b v : ℕ) : List ℕ := if v = 0 then [0] else (Nat.digits b v).reverse

/-- The number that digits stand for. -/
def numeralValue (b : ℕ) (ds : List ℕ) : ℕ := Nat.ofDigits b ds.reverse

/-- `while (v && i < n) tmp[i++] = v % b, v /= b` -/
def scratch (b : ℕ) : (n v : ℕ) → List ℕ
  | 0, _ => []
  | n + 1, v => if v = 0 then [] else v % b :: scratch b n (v / b)

lemma numeralValue_concat (b : ℕ) (ds : List ℕ) (d : ℕ) :
    numeralValue b (ds ++ [d]) = numeralValue b ds * b + d := by
  rw [numeralValue, reverse_append, reverse_singleton, singleton_append,
    Nat.ofDigits_cons, numeralValue]
  ring

lemma numeralValue_le_append (hb : 0 < b) (ds ds' : List ℕ) :
    numeralValue b ds ≤ numeralValue b (ds ++ ds') := by
  rw [numeralValue, numeralValue, reverse_append, Nat.ofDigits_append]
  exact (Nat.le_mul_of_pos_left _ (Nat.pow_pos hb)).trans (Nat.le_add_left _ _)

/-- **A numeral stands for its number.** -/
lemma numeralValue_numeral (b v : ℕ) : numeralValue b (numeral b v) = v := by
  rw [numeralValue, numeral]
  split_ifs with hv
  · rw [hv]
    rfl
  · rw [reverse_reverse, Nat.ofDigits_digits]

lemma numeral_ne_nil (b v : ℕ) : numeral b v ≠ [] := by
  rw [numeral]
  split_ifs with hv
  · exact cons_ne_nil _ _
  · rw [ne_eq, reverse_eq_nil_iff, ← ne_eq, Nat.digits_ne_nil_iff_ne_zero]
    exact hv

lemma lt_of_mem_numeral (hb : 1 < b) (h : d ∈ numeral b v) : d < b := by
  rw [numeral] at h
  split_ifs at h with hv
  · rw [List.mem_singleton.mp h]
    omega
  · exact Nat.digits_lt_base hb (List.mem_reverse.mp h)

lemma length_numeral_le (hb : 1 < b) (hn : 0 < n) (hv : v < b ^ n) : (numeral b v).length ≤ n := by
  rw [numeral]
  split_ifs
  · exact hn
  · rw [length_reverse, Nat.digits_length_le_iff hb]
    exact hv

/-- **A scratch array that is long enough gets all the digits**, the least significant one first. -/
lemma scratch_eq (hb : 1 < b) (hv : v < b ^ n) : scratch b n v = Nat.digits b v := by
  induction n generalizing v with
  | zero =>
    have hzero : v = 0 := by simpa using hv
    rw [hzero, Nat.digits_zero, scratch]
  | succ n ih =>
    rw [scratch]
    split_ifs with h
    · rw [h, Nat.digits_zero]
    · have hdiv : v / b < b ^ n := Nat.div_lt_of_lt_mul (by rwa [pow_succ, mul_comm] at hv)
      rw [ih hdiv, Nat.digits_def' hb (Nat.pos_of_ne_zero h)]

lemma reverse_scratch (hb : 1 < b) (hv : v < b ^ n) (hne : v ≠ 0) :
    (scratch b n v).reverse = numeral b v := by
  rw [scratch_eq hb hv, numeral, if_neg hne]

end Lib
