import Mathlib.Tactic

/-!
# Byte-addressed memory

A memory is a function from addresses to bytes.  Every write of a run of bytes is an `overlay`:
filling, copying and storing a little-endian number differ only in what they lay over the run.
Hence the two facts a frame argument needs, what is inside the run and what is outside it, are
proved once (`overlay_inside`, `overlay_outside`).

`loadLE` reads a little-endian number of `n` bytes, `storeLE` writes one.
-/

namespace Lib

/-- A byte-addressed memory. -/
abbrev Memory := ℕ → UInt8

/-- `m` with the `n` bytes from `a` on replaced by `src 0`, `src 1`, and so on. -/
def overlay (m : Memory) (a n : ℕ) (src : ℕ → UInt8) : Memory := fun x =>
  if a ≤ x ∧ x < a + n then src (x - a) else m x

/-- Fill a run with one byte. -/
def fill (m : Memory) (a n : ℕ) (b : UInt8) : Memory :=
  overlay m a n fun _ => b

/-- The little-endian number in the `n` bytes from `a` on. -/
def loadLE (m : Memory) : (n a : ℕ) → ℕ
  | 0, _ => 0
  | n + 1, a => (m a).toNat + 256 * loadLE m n (a + 1)

/-- Store the low `n` bytes of `v`, little end first. -/
def storeLE (m : Memory) (n a v : ℕ) : Memory :=
  overlay m a n fun i => UInt8.ofNat (v / 256 ^ i)

variable {m : Memory} {a n : ℕ} {src : ℕ → UInt8}

lemma overlay_inside {x : ℕ} (h1 : a ≤ x) (h2 : x < a + n) : overlay m a n src x = src (x - a) := by
  simp [overlay, h1, h2]

lemma overlay_outside {x : ℕ} (h : x < a ∨ a + n ≤ x) : overlay m a n src x = m x := by
  have : ¬ (a ≤ x ∧ x < a + n) := by omega
  simp [overlay, this]

@[simp] lemma overlay_zero (m : Memory) (a : ℕ) (src : ℕ → UInt8) : overlay m a 0 src = m := by
  funext x
  exact overlay_outside (by omega)

lemma loadLE_congr {m' : Memory} :
    ∀ {n a : ℕ}, (∀ x, a ≤ x → x < a + n → m x = m' x) → loadLE m n a = loadLE m' n a
  | 0, _, _ => rfl
  | n + 1, a, h => by
      rw [loadLE, loadLE, h a (le_refl a) (by omega)]
      rw [loadLE_congr (n := n) (a := a + 1) fun x h1 h2 => h x (by omega) (by omega)]

lemma loadLE_lt (m : Memory) : ∀ n a : ℕ, loadLE m n a < 256 ^ n
  | 0, _ => by simp [loadLE]
  | n + 1, a => by
      have hrest := loadLE_lt m n (a + 1)
      have hbyte := (m a).toNat_lt
      rw [loadLE, pow_succ]
      omega

lemma loadLE_overlay_outside {k : ℕ} {b : ℕ} (h : b + n ≤ a ∨ a + k ≤ b) :
    loadLE (overlay m a k src) n b = loadLE m n b :=
  loadLE_congr fun x h1 h2 => overlay_outside (by omega)

lemma loadLE_digits (v : ℕ) :
    ∀ {n a j : ℕ}, (∀ i, i < n → m (a + i) = UInt8.ofNat (v / 256 ^ (j + i))) →
      loadLE m n a = v / 256 ^ j % 256 ^ n
  | 0, _, _, _ => by simp [loadLE, Nat.mod_one]
  | n + 1, a, j, h => by
      have htail : loadLE m n (a + 1) = v / 256 ^ (j + 1) % 256 ^ n :=
        loadLE_digits v fun i hi => by
          have := h (i + 1) (by omega)
          rw [show a + 1 + i = a + (i + 1) by omega, this, show j + (i + 1) = j + 1 + i by omega]
      have hhead : (m a).toNat = v / 256 ^ j % 256 := by
        have := h 0 (by omega)
        rw [Nat.add_zero, Nat.add_zero] at this
        rw [this, UInt8.toNat_ofNat']
      rw [loadLE, hhead, htail, pow_succ 256 j, ← Nat.div_div_eq_div_mul, pow_succ,
        Nat.mul_comm (256 ^ n) 256, Nat.mod_mul]

lemma loadLE_storeLE (m : Memory) (n a v : ℕ) : loadLE (storeLE m n a v) n a = v % 256 ^ n := by
  have := loadLE_digits v (m := storeLE m n a v) (n := n) (a := a) (j := 0) fun i hi => by
    rw [storeLE, overlay_inside (by omega) (by omega)]
    simp
  simpa using this

lemma loadLE_storeLE_outside {k v b : ℕ} (h : b + n ≤ a ∨ a + k ≤ b) :
    loadLE (storeLE m k a v) n b = loadLE m n b :=
  loadLE_overlay_outside h

lemma loadLE_eq_zero : ∀ {n a : ℕ}, (∀ x, a ≤ x → x < a + n → m x = 0) → loadLE m n a = 0
  | 0, _, _ => rfl
  | n + 1, a, h => by
      rw [loadLE, h a (le_refl a) (by omega), loadLE_eq_zero fun x h1 h2 => h x (by omega) (by omega)]
      rfl

end Lib
