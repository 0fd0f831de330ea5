import Mathlib.Tactic

/-!
# Pieces that lie end to end

`Tiles start len lo xs hi`: the pieces `xs`, each with a start and a length, fill the range from `lo`
up to `hi` in the order of the list, without gaps.  Then pieces further down the list lie further up
(`Tiles.pairwise`), and a range is extended by a piece that starts where it ends (`Tiles.snoc`).
-/

namespace Lib

variable {α : Type*} {start len : α → ℕ} {lo hi : ℕ} {x y : α} {xs : List α}

/-- The pieces `xs` fill the range from `lo` up to `hi`. -/
def Tiles (start len : α → ℕ) : ℕ → List α → ℕ → Prop
  | lo, [], hi => lo = hi
  | lo, x :: xs, hi => start x = lo ∧ Tiles start len (lo + len x) xs hi

namespace Tiles

lemma le (h : Tiles start len lo xs hi) : lo ≤ hi := by
  induction xs generalizing lo with
  | nil => exact h.le
  | cons x xs ih => exact (Nat.le_add_right _ _).trans (ih h.2)

lemma eq_nil (h : Tiles start len lo xs lo) (hlen : ∀ x, 0 < len x) : xs = [] := by
  cases xs with
  | nil => rfl
  | cons x xs =>
    have := h.2.le
    have := hlen x
    omega

section

variable (h : Tiles start len lo xs hi)
include h

lemma snoc (hx : start x = hi) : Tiles start len lo (xs ++ [x]) (hi + len x) := by
  induction xs generalizing lo with
  | nil =>
    rw [Tiles] at h
    subst h
    exact ⟨hx, rfl⟩
  | cons y ys ih => exact ⟨h.1, ih h.2⟩

lemma map {f : α → α} (hstart : ∀ x, start (f x) = start x) (hlen : ∀ x, len (f x) = len x) :
    Tiles start len lo (xs.map f) hi := by
  induction xs generalizing lo with
  | nil => exact h
  | cons x xs ih =>
    refine ⟨(hstart x).trans h.1, ?_⟩
    rw [hlen]
    exact ih h.2

lemma start_ge (hx : x ∈ xs) : lo ≤ start x := by
  induction xs generalizing lo with
  | nil => cases hx
  | cons y ys ih =>
    rcases List.mem_cons.mp hx with rfl | hx
    · exact h.1.ge
    · exact (Nat.le_add_right _ _).trans (ih h.2 hx)

lemma fin_le (hx : x ∈ xs) : start x + len x ≤ hi := by
  induction xs generalizing lo with
  | nil => cases hx
  | cons y ys ih =>
    rcases List.mem_cons.mp hx with rfl | hx
    · rw [h.1]
      exact h.2.le
    · exact ih h.2 hx

lemma pairwise : xs.Pairwise fun x y => start x + len x ≤ start y := by
  induction xs generalizing lo with
  | nil => exact .nil
  | cons x xs ih =>
    refine List.pairwise_cons.mpr ⟨fun y hy => ?_, ih h.2⟩
    rw [h.1]
    exact h.2.start_ge hy

end

end Tiles

end Lib
