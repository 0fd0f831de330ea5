import MyOs.Lib.Bytes

/-!
# Blocks of bytes as one array

A device that only transfers blocks of `size` bytes, seen as one flat array of bytes.  A run of bytes
that lies in one block is read from there (`flat_apply`), and written by writing the block with the run
replaced (`flat_update_overlay`).  Runs that lie behind each other are one run (`overlay_append`).
-/

namespace Lib

variable {size a n : ℕ} {blocks : ℕ → Memory} {src : ℕ → UInt8}

/-- The byte at an address is in the block that the address divided by the size gives. -/
def flat (size : ℕ) (blocks : ℕ → Memory) : Memory := fun x => blocks (x / size) (x % size)

lemma overlay_append (m : Memory) (a n k : ℕ) (src : ℕ → UInt8) :
    overlay (overlay m a n src) (a + n) k (fun i => src (n + i)) = overlay m a (n + k) src := by
  funext x
  by_cases hfirst : a ≤ x ∧ x < a + n
  · rw [overlay_outside (Or.inl hfirst.2), overlay_inside hfirst.1 hfirst.2,
      overlay_inside hfirst.1 (by omega)]
  by_cases hsecond : a + n ≤ x ∧ x < a + n + k
  · rw [overlay_inside hsecond.1 hsecond.2, overlay_inside (by omega) (by omega)]
    congr 1
    omega
  · rw [overlay_outside (by omega), overlay_outside (by omega), overlay_outside (by omega)]

lemma flat_apply (h : a % size + n ≤ size) {i : ℕ} (hi : i < n) :
    flat size blocks (a + i) = blocks (a / size) (a % size + i) := by
  have hsize : 0 < size := by omega
  have hsplit : a + i = a % size + i + size * (a / size) := by
    have := Nat.mod_add_div a size
    omega
  rw [flat, hsplit, Nat.add_mul_div_left _ _ hsize, Nat.add_mul_mod_self_left,
    Nat.div_eq_of_lt (by omega), Nat.mod_eq_of_lt (by omega), Nat.zero_add]

lemma flat_update_overlay (hsize : 0 < size) (h : a % size + n ≤ size) {block : Memory}
    (hblock : ∀ i < size, block i = overlay (blocks (a / size)) (a % size) n src i) :
    flat size (Function.update blocks (a / size) block) = overlay (flat size blocks) a n src := by
  have ha := Nat.mod_add_div a size
  funext x
  have hx := Nat.mod_add_div x size
  rw [flat]
  by_cases hsame : x / size = a / size
  · rw [hsame, Function.update_self, hblock _ (Nat.mod_lt x hsize)]
    rw [hsame] at hx
    by_cases hin : a ≤ x ∧ x < a + n
    · rw [overlay_inside hin.1 hin.2, overlay_inside (by omega) (by omega)]
      congr 1
      omega
    · rw [overlay_outside (by omega), overlay_outside (by omega), flat, hsame]
  · -- the run is in another block
    have hout : x < a ∨ a + n ≤ x := by
      by_contra hin
      rw [not_or, not_lt, not_le] at hin
      refine hsame (Nat.div_eq_of_lt_le ?_ ?_)
      · rw [Nat.mul_comm]
        omega
      · rw [Nat.succ_mul, Nat.mul_comm]
        omega
    rw [Function.update_of_ne hsame, overlay_outside hout]
    rfl

end Lib
