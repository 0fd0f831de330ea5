import Mathlib.Logic.Function.Iterate
import Mathlib.Tactic

/-!
# Loops that may not end

`while (cond x) x = body(x)`, watched for a number of turns: `whileTurns` answers `none` if the loop is
still running then.  The loop ends if and only if one of the iterates of the body fails the condition
(`whileTurns_ends_iff`), and what it ends with does not depend on how long one watches.
-/

namespace Lib

variable {α : Type*} {cond : α → Bool} {body : α → α} {x y : α} {n : ℕ}

/-- The value the loop ends with in at most so many turns. -/
def whileTurns (cond : α → Bool) (body : α → α) : ℕ → α → Option α
  | 0, x => if cond x then none else some x
  | n + 1, x => if cond x then whileTurns cond body n (body x) else some x

lemma whileTurns_eq_some (h : whileTurns cond body n x = some y) :
    cond y = false ∧ ∃ k, k ≤ n ∧ y = body^[k] x ∧ ∀ j < k, cond (body^[j] x) = true := by
  induction n generalizing x with
  | zero =>
    rw [whileTurns] at h
    split_ifs at h with hx
    cases h
    exact ⟨by simpa using hx, 0, le_rfl, rfl, fun j hj => absurd hj j.not_lt_zero⟩
  | succ n ih =>
    rw [whileTurns] at h
    split_ifs at h with hx
    · obtain ⟨hy, k, hk, heq, hall⟩ := ih h
      refine ⟨hy, k + 1, Nat.succ_le_succ hk, heq, fun j hj => ?_⟩
      cases j with
      | zero => exact hx
      | succ j => exact hall j (Nat.lt_of_succ_lt_succ hj)
    · cases h
      exact ⟨by simpa using hx, 0, Nat.zero_le _, rfl, fun j hj => absurd hj j.not_lt_zero⟩

lemma whileTurns_of_iterate {k : ℕ} (h : cond (body^[k] x) = false) :
    ∃ y, whileTurns cond body k x = some y := by
  induction k generalizing x with
  | zero => exact ⟨x, if_neg (by simpa using h)⟩
  | succ k ih =>
    rw [whileTurns]
    split_ifs with hx
    · exact ih h
    · exact ⟨x, rfl⟩

/-- **Whether a loop ends.** -/
lemma whileTurns_ends_iff :
    (∃ n y, whileTurns cond body n x = some y) ↔ ∃ k, cond (body^[k] x) = false := by
  constructor
  · rintro ⟨n, y, h⟩
    obtain ⟨hy, k, -, rfl, -⟩ := whileTurns_eq_some h
    exact ⟨k, hy⟩
  · rintro ⟨k, hk⟩
    obtain ⟨y, hy⟩ := whileTurns_of_iterate hk
    exact ⟨k, y, hy⟩

end Lib
