import MyOs.Lib.Words

/-!
# Pages, rounding and text

`PAGE_SIZE` (`include/pmm.h`) and the two rounding helpers of `src/lib.c`.  Machine words are
natural numbers, reduced modulo `2 ^ 64` where the source's `uint64_t` arithmetic can wrap.
Characters are bytes.
-/

namespace MyOs

/-- A character constant of the source. -/
def chr (c : Char) : UInt8 := UInt8.ofNat c.toNat

/-- A string constant of the source, without the zero at its end. -/
def ascii (text : String) : List UInt8 := text.toList.map chr

abbrev pageSize : ℕ := 4096

def alignUpU64 (v a : ℕ) : ℕ :=
  (v + (a - 1)) % 2 ^ 64 &&& (2 ^ 64 - 1 - (a - 1))

def alignDownU64 (v a : ℕ) : ℕ :=
  v &&& (2 ^ 64 - 1 - (a - 1))

lemma alignDownU64_pow (v : ℕ) {k : ℕ} (hk : k ≤ 64) :
    alignDownU64 v (2 ^ k) = v % 2 ^ 64 / 2 ^ k * 2 ^ k := by
  have hpow : 2 ^ k ≤ 2 ^ 64 := Nat.pow_le_pow_right (by decide) hk
  have hpos : 0 < 2 ^ k := Nat.two_pow_pos k
  rw [alignDownU64, show 2 ^ 64 - 1 - (2 ^ k - 1) = 2 ^ 64 - 2 ^ k by omega, Lib.and_highMask hk]

lemma alignUpU64_pow (v : ℕ) {k : ℕ} (hk : k ≤ 64) :
    alignUpU64 v (2 ^ k) = (v + (2 ^ k - 1)) % 2 ^ 64 / 2 ^ k * 2 ^ k := by
  have := alignDownU64_pow ((v + (2 ^ k - 1)) % 2 ^ 64) hk
  rwa [Nat.mod_mod] at this

lemma alignDownU64_page (v : ℕ) : alignDownU64 v pageSize = v % 2 ^ 64 / 4096 * 4096 :=
  alignDownU64_pow v (k := 12) (by decide)

lemma alignUpU64_page (v : ℕ) : alignUpU64 v pageSize = (v + 4095) % 2 ^ 64 / 4096 * 4096 :=
  alignUpU64_pow v (k := 12) (by decide)

lemma alignUpU64_sixteen (v : ℕ) : alignUpU64 v 16 = (v + 15) % 2 ^ 64 / 16 * 16 :=
  alignUpU64_pow v (k := 4) (by decide)

end MyOs
