import Mathlib.Tactic

/-!
# Linked lists

Cells linked by pointers: `next a` is the pointer stored in the cell `a`, and 0 is the null pointer.
`Chain next p xs` says that the cells from `p` on are `xs`, and that the last of them points to null.

The two loops on such a list take a bound for their turns, which the length of the list satisfies:
`chainFind` looks for a cell, and `chainCell` for the place where the pointer to a cell is stored,
as one has to do to unlink it.
-/

namespace Lib

open List Function

variable {α : Type*} [Zero α]

/-- The cells from `p` on are `xs`. -/
def Chain (next : α → α) : α → List α → Prop
  | p, [] => p = 0
  | p, x :: xs => p = x ∧ x ≠ 0 ∧ Chain next (next x) xs

variable {next next' : α → α} {p x : α} {xs : List α}

lemma Chain.head_mem (h : Chain next p xs) (hp : p ≠ 0) : p ∈ xs := by
  cases xs with
  | nil => exact absurd h hp
  | cons y ys => exact mem_cons.mpr (Or.inl h.1)

lemma Chain.eq_nil (h : Chain next p xs) (hp : p = 0) : xs = [] := by
  cases xs with
  | nil => rfl
  | cons y ys => exact absurd (h.1.symm.trans hp) h.2.1

lemma Chain.next_mem (h : Chain next p xs) (hx : x ∈ xs) (hne : next x ≠ 0) : next x ∈ xs := by
  induction xs generalizing p with
  | nil => cases hx
  | cons y ys ih =>
    refine mem_cons_of_mem y ?_
    rcases mem_cons.mp hx with rfl | hx
    · exact h.2.2.head_mem hne
    · exact ih h.2.2 hx

lemma Chain.congr (h : Chain next p xs) (hnext : ∀ x ∈ xs, next' x = next x) :
    Chain next' p xs := by
  induction xs generalizing p with
  | nil => exact h
  | cons y ys ih =>
    refine ⟨h.1, h.2.1, ?_⟩
    rw [hnext y mem_cons_self]
    exact ih h.2.2 fun x hx => hnext x (mem_cons_of_mem y hx)

variable [DecidableEq α]

/-- The first cell from a pointer on that passes the test; null if there is none. -/
def chainFind (next : α → α) (test : α → Bool) : ℕ → α → α
  | 0, _ => 0
  | n + 1, p => if p = 0 then 0 else if test p then p else chainFind next test n (next p)

lemma chainFind_eq (h : Chain next p xs) (test : α → Bool) {n : ℕ} (hn : xs.length ≤ n) :
    chainFind next test n p = (xs.find? test).getD 0 := by
  induction xs generalizing p n with
  | nil =>
    cases n with
    | zero => rfl
    | succ n => exact if_pos h
  | cons y ys ih =>
    obtain ⟨rfl, hne, hrest⟩ := h
    cases n with
    | zero => simp at hn
    | succ n =>
      rw [chainFind, if_neg hne, find?_cons]
      cases htest : test p with
      | true => rfl
      | false => exact ih hrest (by simpa using hn)

/-- Where the pointer to `target` is stored: in the head of the list or in a cell.  `place` is where
the pointer `p` is stored. -/
def chainCell (next : α → α) (target : α) : ℕ → Option α → α → Option (Option α)
  | 0, _, _ => none
  | n + 1, place, p =>
    if p = 0 then none
    else if p = target then some place else chainCell next target n (some p) (next p)

/-- The place is found, and with the target's successor stored there the target is unlinked. -/
lemma chainCell_spec (h : Chain next p xs) (hxs : xs.Nodup) (hx : x ∈ xs) {n : ℕ}
    (hn : xs.length ≤ n) (place : Option α) :
    p = x ∧ chainCell next x n place p = some place ∧ Chain next (next x) (xs.erase x) ∨
      p ≠ x ∧ ∃ q ∈ xs, q ≠ x ∧ chainCell next x n place p = some (some q) ∧
        Chain (update next q (next x)) p (xs.erase x) := by
  induction xs generalizing p n place with
  | nil => cases hx
  | cons y ys ih =>
    obtain ⟨rfl, hne, hrest⟩ := h
    obtain ⟨hnotin, hys⟩ := nodup_cons.mp hxs
    cases n with
    | zero => simp at hn
    | succ n =>
      rw [chainCell, if_neg hne]
      by_cases hpx : p = x
      · subst hpx
        exact Or.inl ⟨rfl, if_pos rfl, by rwa [erase_cons_head]⟩
      rw [if_neg hpx, erase_cons_tail (by simpa using hpx)]
      have hxys : x ∈ ys := (mem_cons.mp hx).resolve_left (Ne.symm hpx)
      refine Or.inr ⟨hpx, ?_⟩
      rcases ih hrest hys hxys (by simpa using hn) (some p) with
        ⟨heq, hcell, hchain⟩ | ⟨_, q, hq, hqx, hcell, hchain⟩
      · -- the target comes next, and `p` is redirected
        refine ⟨p, mem_cons_self, hpx, hcell, rfl, hne, ?_⟩
        rw [update_self]
        refine hchain.congr fun y hy => update_of_ne ?_ _ _
        rintro rfl
        exact hnotin (mem_of_mem_erase hy)
      · have hpq : p ≠ q := fun hpq => hnotin (hpq ▸ hq)
        refine ⟨q, mem_cons_of_mem p hq, hqx, hcell, rfl, hne, ?_⟩
        rw [update_of_ne hpq]
        exact hchain

end Lib
