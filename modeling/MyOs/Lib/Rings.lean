import Mathlib.Tactic

/-!
# Bounded rings

A ring of `n` slots with the index of the next slot to fill and that of the next one to empty.  One
slot always stays free, so that equal indices mean an empty ring: it holds at most `n - 1` values.
Pushing to a full ring drops the value.

`contents` is the queue a ring stands for.  `push` and `pop` act on it as on a list
(`contents_push`, `contents_of_pop`), and users of a ring only ever need these rules.
-/

namespace Lib

open List Function

variable {α : Type*} {n : ℕ} [NeZero n]

/-- A ring of `n` slots. -/
structure Ring (α : Type*) (n : ℕ) where
  slots : Fin n → α
  head : Fin n
  tail : Fin n

namespace Ring

/-- The ring whose slots all hold `a`, and which is empty. -/
def clear (a : α) : Ring α n := ⟨fun _ => a, 0, 0⟩

def Full (r : Ring α n) : Prop := r.head + 1 = r.tail

instance (r : Ring α n) : Decidable r.Full := inferInstanceAs (Decidable (r.head + 1 = r.tail))

/-- Append a value; a full ring stays as it is. -/
def push (r : Ring α n) (a : α) : Ring α n :=
  if r.Full then r else { r with slots := Function.update r.slots r.head a, head := r.head + 1 }

/-- Take the oldest value. -/
def pop (r : Ring α n) : Option (α × Ring α n) :=
  if r.tail = r.head then none else some (r.slots r.tail, { r with tail := r.tail + 1 })

/-- How many values the ring holds. -/
def count (r : Ring α n) : ℕ := (r.head - r.tail).val

/-- The values of the ring, oldest first. -/
def contents (r : Ring α n) : List α :=
  (List.range r.count).map fun k => r.slots (r.tail + Fin.ofNat n k)

variable {r r' : Ring α n} {a : α}

@[simp] lemma contents_clear (a : α) : (clear a : Ring α n).contents = [] := by
  simp [contents, count, clear]

/-! Indices wrap, so distances do: the argument is about `head - tail` in `Fin n`. -/

lemma val_add_one (d : Fin n) : (d + 1).val = if d.val + 1 = n then 0 else d.val + 1 := by
  have hd := d.isLt
  rw [Fin.val_add, Fin.val_one', Nat.add_mod_mod]
  split_ifs with h
  · rw [h, Nat.mod_self]
  · exact Nat.mod_eq_of_lt (by omega)

lemma val_ofNat_of_lt {k : ℕ} (hk : k < n) : (Fin.ofNat n k).val = k := Nat.mod_eq_of_lt hk

lemma ofNat_succ (k : ℕ) : Fin.ofNat n (k + 1) = 1 + Fin.ofNat n k := by
  refine Fin.ext ?_
  rw [Fin.val_add, Fin.val_one', Fin.val_ofNat, Fin.val_ofNat, ← Nat.add_mod, Nat.add_comm]

lemma tail_add_ofNat_count (r : Ring α n) : r.tail + Fin.ofNat n r.count = r.head := by
  have : Fin.ofNat n r.count = r.head - r.tail := Fin.ext (val_ofNat_of_lt (Fin.isLt _))
  rw [this, add_sub_cancel]

omit [NeZero n] in
lemma count_lt (r : Ring α n) : r.count < n := Fin.isLt _

lemma full_iff_count : r.Full ↔ r.count + 1 = n := by
  have hshift : r.head + 1 = r.tail ↔ r.head - r.tail + 1 = 0 := by
    rw [sub_add_eq_add_sub, sub_eq_zero]
  rw [Full, hshift, Fin.ext_iff, val_add_one, Fin.val_zero, count]
  split_ifs with h <;> simp [h]

lemma contents_push_of_full (h : r.Full) (a : α) : (r.push a).contents = r.contents := by
  rw [push, if_pos h]

lemma contents_push (h : ¬ r.Full) (a : α) : (r.push a).contents = r.contents ++ [a] := by
  have hcount : (r.push a).count = r.count + 1 := by
    rw [push, if_neg h]
    change (r.head + 1 - r.tail).val = (r.head - r.tail).val + 1
    rw [add_sub_right_comm, val_add_one]
    exact if_neg (full_iff_count.not.mp h)
  have hold : ∀ k < r.count, r.tail + Fin.ofNat n k ≠ r.head := by
    intro k hk heq
    rw [← r.tail_add_ofNat_count, add_left_cancel_iff, Fin.ext_iff,
      val_ofNat_of_lt (hk.trans r.count_lt), val_ofNat_of_lt r.count_lt] at heq
    omega
  rw [contents, hcount, range_succ, map_append, push, if_neg h]
  refine congrArg₂ (· ++ ·) (map_congr_left fun k hk => ?_) ?_
  · exact update_of_ne (hold k (mem_range.mp hk)) _ _
  · change [update r.slots r.head a (r.tail + Fin.ofNat n r.count)] = [a]
    rw [tail_add_ofNat_count, update_self]

lemma pop_eq_none : r.pop = none ↔ r.contents = [] := by
  rw [pop, contents, map_eq_nil_iff, range_eq_nil, count, Fin.val_eq_zero_iff,
    sub_eq_zero, eq_comm (a := r.head)]
  split_ifs with h <;> simp [h]

lemma contents_of_pop (h : r.pop = some (a, r')) : r.contents = a :: r'.contents := by
  rw [pop] at h
  split_ifs at h with hne
  rw [Option.some_inj, Prod.mk.injEq] at h
  obtain ⟨rfl, rfl⟩ := h
  have hdist : r.head - r.tail = r.head - (r.tail + 1) + 1 := by abel
  have hcount : r.count = count { r with tail := r.tail + 1 } + 1 := by
    have hpos : r.count ≠ 0 := fun hzero =>
      hne (sub_eq_zero.mp (Fin.val_eq_zero_iff.mp hzero)).symm
    rw [count, hdist, val_add_one] at hpos ⊢
    split_ifs at hpos ⊢ with hwrap
    · exact absurd rfl hpos
    · rfl
  rw [contents, hcount, range_succ_eq_map, map_cons, map_map]
  refine congrArg₂ cons (by simp) (map_congr_left fun k _ => ?_)
  simp only [comp_apply, Nat.succ_eq_add_one, ofNat_succ, add_assoc]

end Ring

end Lib
