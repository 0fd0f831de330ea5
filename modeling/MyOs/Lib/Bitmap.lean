import Mathlib.Tactic
import Mathlib.Data.Nat.Bitwise

/-!
# Sets of indices packed into bytes

Bit `i` is bit `i % 8` of byte `i / 8`.  The three operations are written with the shifts and
masks a program uses; `getBit_setBit` and `getBit_clearBit` say that they act on one index, and
from then on the packing is never looked at again.

`clearCount` counts the clear bits below a bound.  It moves by one with every single bit
(`clearCount_setBit`, `clearCount_clearBit`) and by `k` when a clear run of `k` bits is set
(`clearCount_setRun`).
-/

namespace Lib

open Function

/-- A set of indices, eight to a byte. -/
abbrev Bitmap := ℕ → UInt8

/-- Is bit `i` set? -/
def getBit (b : Bitmap) (i : ℕ) : Bool :=
  (b (i >>> 3) >>> UInt8.ofNat (i &&& 7)) &&& 1 != 0

/-- Set bit `i`. -/
def setBit (b : Bitmap) (i : ℕ) : Bitmap :=
  Function.update b (i >>> 3) (b (i >>> 3) ||| UInt8.ofNat (1 <<< (i &&& 7)))

/-- Clear bit `i`. -/
def clearBit (b : Bitmap) (i : ℕ) : Bitmap :=
  Function.update b (i >>> 3) (b (i >>> 3) &&& ~~~ UInt8.ofNat (1 <<< (i &&& 7)))

/-- Set the `k` bits from `s` on, lowest first. -/
def setRun (b : Bitmap) (s : ℕ) : ℕ → Bitmap
  | 0 => b
  | k + 1 => setBit (setRun b s k) (s + k)

/-- The number of clear bits below `n`. -/
def clearCount (b : Bitmap) : ℕ → ℕ
  | 0 => 0
  | n + 1 => clearCount b n + if getBit b n then 0 else 1

/-! ## One byte -/

private lemma shiftRight_three (i : ℕ) : i >>> 3 = i / 8 := Nat.shiftRight_eq_div_pow i 3

private lemma and_seven (i : ℕ) : i &&& 7 = i % 8 := Nat.and_two_pow_sub_one_eq_mod i 3

lemma getBit_eq_testBit (b : Bitmap) (i : ℕ) : getBit b i = (b (i / 8)).toNat.testBit (i % 8) := by
  have hval : ((b (i / 8) >>> UInt8.ofNat (i % 8)) &&& 1).toNat
      = 1 &&& (b (i / 8)).toNat >>> (i % 8) := by
    simp [UInt8.toNat_and, UInt8.toNat_shiftRight, Nat.and_comm]
  rw [getBit, shiftRight_three, and_seven, Nat.testBit, ← hval, Bool.eq_iff_iff, bne_iff_ne,
    bne_iff_ne, not_iff_not]
  exact UInt8.toNat_inj.symm

variable {i k n : ℕ} {b b' : Bitmap}

private lemma toNat_one_shl (hk : k < 8) : (UInt8.ofNat (1 <<< k)).toNat = 2 ^ k := by
  have : 2 ^ k < 256 := (Nat.pow_lt_pow_iff_right (by decide)).mpr hk
  rw [UInt8.toNat_ofNat', Nat.shiftLeft_eq, Nat.one_mul]
  exact Nat.mod_eq_of_lt this

private lemma testBit_byte_set (x : UInt8) {l : ℕ} (hk : k < 8) :
    (x ||| UInt8.ofNat (1 <<< k)).toNat.testBit l = (decide (k = l) || x.toNat.testBit l) := by
  rw [UInt8.toNat_or, toNat_one_shl hk, Nat.testBit_or, Nat.testBit_two_pow, Bool.or_comm]

private lemma testBit_byte_clear (x : UInt8) {l : ℕ} (hk : k < 8) (hl : l < 8) :
    (x &&& ~~~ UInt8.ofNat (1 <<< k)).toNat.testBit l = (!decide (k = l) && x.toNat.testBit l) := by
  have hnot : (~~~ UInt8.ofNat (1 <<< k)).toNat = 2 ^ 8 - 1 - 2 ^ k := by
    rw [UInt8.toNat_not, toNat_one_shl hk]
    rfl
  have hpow : 2 ^ k < 2 ^ 8 := (Nat.pow_lt_pow_iff_right (by decide)).mpr hk
  rw [UInt8.toNat_and, hnot, Nat.testBit_and, Nat.sub_sub, Nat.add_comm 1,
    Nat.testBit_two_pow_sub_succ hpow, Nat.testBit_two_pow]
  simp [hl, Bool.and_comm]

/-! ## One index -/

lemma getBit_setBit (b : Bitmap) (i j : ℕ) :
    getBit (setBit b i) j = (decide (i = j) || getBit b j) := by
  have hi : i % 8 < 8 := Nat.mod_lt _ (by decide)
  rw [getBit_eq_testBit, getBit_eq_testBit, setBit, shiftRight_three, and_seven]
  by_cases hbyte : j / 8 = i / 8
  · have hiff : (i % 8 = j % 8) ↔ i = j := by omega
    rw [hbyte, update_self, testBit_byte_set _ hi]
    simp [hiff]
  · have hne : i ≠ j := fun h => hbyte (by rw [h])
    rw [update_of_ne hbyte]
    simp [hne]

lemma getBit_clearBit (b : Bitmap) (i j : ℕ) :
    getBit (clearBit b i) j = (!decide (i = j) && getBit b j) := by
  have hi : i % 8 < 8 := Nat.mod_lt _ (by decide)
  have hj : j % 8 < 8 := Nat.mod_lt _ (by decide)
  rw [getBit_eq_testBit, getBit_eq_testBit, clearBit, shiftRight_three, and_seven]
  by_cases hbyte : j / 8 = i / 8
  · have hiff : (i % 8 = j % 8) ↔ i = j := by omega
    rw [hbyte, update_self, testBit_byte_clear _ hi hj]
    simp [hiff]
  · have hne : i ≠ j := fun h => hbyte (by rw [h])
    rw [update_of_ne hbyte]
    simp [hne]

lemma bitmap_ext (h : ∀ i, getBit b i = getBit b' i) : b = b' := by
  funext k
  refine UInt8.toNat_inj.mp (Nat.eq_of_testBit_eq fun l => ?_)
  by_cases hl : l < 8
  · have := h (8 * k + l)
    rw [getBit_eq_testBit, getBit_eq_testBit] at this
    rwa [show (8 * k + l) / 8 = k by omega, show (8 * k + l) % 8 = l by omega] at this
  · have hpow : 256 ≤ 2 ^ l := by
      calc 256 = 2 ^ 8 := rfl
        _ ≤ 2 ^ l := Nat.pow_le_pow_right (by decide) (by omega)
    rw [Nat.testBit_lt_two_pow (lt_of_lt_of_le (b k).toNat_lt hpow),
      Nat.testBit_lt_two_pow (lt_of_lt_of_le (b' k).toNat_lt hpow)]

lemma getBit_setRun (b : Bitmap) (s k i : ℕ) :
    getBit (setRun b s k) i = (decide (s ≤ i ∧ i < s + k) || getBit b i) := by
  induction k with
  | zero =>
    have : ¬ (s ≤ i ∧ i < s + 0) := by omega
    simp only [setRun, this, decide_false, Bool.false_or]
  | succ k ih =>
    rw [setRun, getBit_setBit, ih]
    have hiff : (s ≤ i ∧ i < s + (k + 1)) ↔ (s + k = i ∨ (s ≤ i ∧ i < s + k)) := by omega
    simp [hiff, Bool.or_assoc]

/-! ## Counting -/

lemma clearCount_congr :
    ∀ {n : ℕ}, (∀ i, i < n → getBit b i = getBit b' i) → clearCount b n = clearCount b' n
  | 0, _ => rfl
  | n + 1, h => by
      rw [clearCount, clearCount, clearCount_congr fun i hi => h i (by omega), h n (by omega)]

lemma clearCount_setBit :
    ∀ {n : ℕ}, i < n → getBit b i = false → clearCount (setBit b i) n + 1 = clearCount b n
  | 0, h, _ => absurd h (by omega)
  | n + 1, h, hclear => by
      rw [clearCount, clearCount, getBit_setBit]
      by_cases hin : i = n
      · subst hin
        have hbelow : clearCount (setBit b i) i = clearCount b i := clearCount_congr fun j hj => by
          rw [getBit_setBit]
          simp [show i ≠ j by omega]
        simp [hbelow, hclear]
      · have ih := clearCount_setBit (n := n) (by omega) hclear
        simp only [hin, decide_false, Bool.false_or]
        omega

lemma clearCount_clearBit (hi : i < n) (hset : getBit b i = true) :
    clearCount (clearBit b i) n = clearCount b n + 1 := by
  have hback : clearCount (setBit (clearBit b i) i) n = clearCount b n :=
    clearCount_congr fun j _ => by
      rw [getBit_setBit, getBit_clearBit]
      by_cases hij : i = j
      · subst hij; simp [hset]
      · simp [hij]
  have := clearCount_setBit (b := clearBit b i) hi (by rw [getBit_clearBit]; simp)
  omega

lemma clearCount_setRun {s : ℕ} :
    ∀ {k : ℕ}, s + k ≤ n → (∀ j, j < k → getBit b (s + j) = false) →
      clearCount (setRun b s k) n + k = clearCount b n
  | 0, _, _ => rfl
  | k + 1, hle, hclear => by
      have ih := clearCount_setRun (s := s) (k := k) (by omega)
        fun j hj => hclear j (by omega)
      have hk : getBit (setRun b s k) (s + k) = false := by
        rw [getBit_setRun, hclear k (by omega)]
        simp
      have := clearCount_setBit (b := setRun b s k) (i := s + k) (n := n) (by omega) hk
      rw [setRun]
      omega

lemma clearCount_eq_zero : ∀ {n : ℕ}, (∀ i, i < n → getBit b i = true) → clearCount b n = 0
  | 0, _ => rfl
  | n + 1, h => by
      rw [clearCount, clearCount_eq_zero fun i hi => h i (by omega), h n (by omega)]
      rfl

lemma clearCount_eq_card (b : Bitmap) (n : ℕ) :
    clearCount b n = ((Finset.range n).filter fun i => getBit b i = false).card := by
  induction n with
  | zero => rfl
  | succ n ih =>
    rw [clearCount, ih, Finset.range_add_one, Finset.filter_insert]
    cases getBit b n <;> simp

end Lib
