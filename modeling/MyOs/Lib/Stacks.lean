import MyOs.Lib.Bytes

/-!
# Stacks of 64-bit words in byte-addressed memory

A stack grows down: a push stores a word 8 bytes below the stack pointer, which then points to it.
`wordsFrom` lists the words that pops will read.  `wordsFrom_pushWords` relates the two: the pops find
the words that were pushed, last one first, and above them the words that were there before.
-/

namespace Lib

open List

/-- Push words one after the other: the memory and the stack pointer that result. -/
def pushWords (m : Memory) (sp : ℕ) : List ℕ → Memory × ℕ
  | [] => (m, sp)
  | v :: vs => pushWords (storeLE m 8 (sp - 8) v) (sp - 8) vs

/-- The `n` words from `a` up. -/
def wordsFrom (m : Memory) (a : ℕ) : ℕ → List ℕ
  | 0 => []
  | n + 1 => loadLE m 8 a :: wordsFrom m (a + 8) n

@[simp] lemma pushWords_snd (vs : List ℕ) (m : Memory) (sp : ℕ) :
    (pushWords m sp vs).2 = sp - 8 * vs.length := by
  induction vs generalizing m sp with
  | nil => rfl
  | cons v vs ih =>
    rw [pushWords, ih, length_cons]
    omega

lemma wordsFrom_congr {m m' : Memory} (n : ℕ) {a : ℕ} (h : ∀ x, a ≤ x → x < a + 8 * n → m x = m' x) :
    wordsFrom m a n = wordsFrom m' a n := by
  induction n generalizing a with
  | zero => rfl
  | succ n ih =>
    rw [wordsFrom, wordsFrom, loadLE_congr fun x h1 h2 => h x h1 (by omega),
      ih fun x h1 h2 => h x (by omega) (by omega)]

/-- **Pops find what was pushed.** -/
lemma wordsFrom_pushWords (n : ℕ) {vs : List ℕ} (m : Memory) {sp : ℕ} (h : 8 * vs.length ≤ sp) :
    wordsFrom (pushWords m sp vs).1 (sp - 8 * vs.length) (vs.length + n) =
      (vs.map (· % 2 ^ 64)).reverse ++ wordsFrom m sp n := by
  induction vs generalizing m sp n with
  | nil => simp [pushWords]
  | cons v vs ih =>
    rw [length_cons] at h ⊢
    have hrest := ih (n + 1) (storeLE m 8 (sp - 8) v) (show 8 * vs.length ≤ sp - 8 by omega)
    have habove : wordsFrom (storeLE m 8 (sp - 8) v) sp n = wordsFrom m sp n :=
      wordsFrom_congr n fun x h1 _ => overlay_outside (by omega)
    rw [wordsFrom, loadLE_storeLE, show sp - 8 + 8 = sp by omega, habove] at hrest
    rw [pushWords, show sp - 8 * (vs.length + 1) = sp - 8 - 8 * vs.length by omega,
      show vs.length + 1 + n = vs.length + (n + 1) by omega, hrest, map_cons, reverse_cons,
      append_assoc, singleton_append]
    rfl

lemma loadLE_shift {m m' : Memory} (n : ℕ) {a b : ℕ} (h : ∀ i < n, m (a + i) = m' (b + i)) :
    loadLE m n a = loadLE m' n b := by
  induction n generalizing a b with
  | zero => rfl
  | succ n ih =>
    have hrest : loadLE m n (a + 1) = loadLE m' n (b + 1) := by
      refine ih fun i hi => ?_
      rw [Nat.add_assoc, Nat.add_assoc, Nat.add_comm 1 i]
      exact h (i + 1) (by omega)
    rw [loadLE, loadLE, hrest, show m a = m' b from h 0 (by omega)]

lemma loadLE_copy (m : Memory) (dst src : ℕ) {k n : ℕ} (h : k + 8 ≤ n) :
    loadLE (overlay m dst n fun i => m (src + i)) 8 (dst + k) = loadLE m 8 (src + k) := by
  refine loadLE_shift 8 fun i hi => ?_
  rw [overlay_inside (by omega) (by omega)]
  congr 1
  omega

end Lib
