import Mathlib.Tactic
import Mathlib.Algebra.BigOperators.Group.Finset.Basic

/-!
# Reference counting

Objects `α` are shared by holders `ι`, each of which refers to at most one object.  A counter per
object is kept by operations that also touch the holders, and while such an operation runs it may
have one reference in hand that belongs to no holder yet, or no longer.

`Balanced` says that every counter is the number of references and that an object is alive, created
more often than destroyed, exactly while it has one.  The five moves by which an operation gets from
one balanced state to the next are the lemmas below; a counter that drops to zero destroys.
-/

namespace Lib

open Function

variable {ι α : Type*} [Fintype ι] [DecidableEq α]

/-- The number of holders that refer to `a`. -/
def holders (use : ι → Option α) (a : α) : ℕ :=
  (Finset.univ.filter fun i => use i = some a).card

/-- One if `a` is the reference in hand. -/
def inHand (hand : Option α) (a : α) : ℕ := if hand = some a then 1 else 0

/-- Counters, creations and destructions agree with the references. -/
structure Balanced (refs made gone : α → ℕ) (use : ι → Option α) (hand : Option α) : Prop where
  refs_eq : ∀ a, refs a = holders use a + inHand hand a
  alive : ∀ a, made a = gone a + min 1 (refs a)

@[simp] lemma inHand_none (a : α) : inHand none a = 0 := rfl

lemma holders_eq_sum (use : ι → Option α) (a : α) : holders use a = ∑ i, inHand (use i) a :=
  Finset.card_filter _ _

lemma holders_update [DecidableEq ι] (use : ι → Option α) (i : ι) (v : Option α) (a : α) :
    holders (Function.update use i v) a + inHand (use i) a = holders use a + inHand v a := by
  have hrest : ∑ j ∈ Finset.univ.erase i, inHand (Function.update use i v j) a =
      ∑ j ∈ Finset.univ.erase i, inHand (use j) a := by
    refine Finset.sum_congr rfl fun j hj => ?_
    rw [update_of_ne (Finset.ne_of_mem_erase hj)]
  rw [holders_eq_sum, holders_eq_sum, ← Finset.add_sum_erase _ _ (Finset.mem_univ i),
    ← Finset.add_sum_erase _ (fun j => inHand (use j) a) (Finset.mem_univ i), hrest, update_self]
  omega

lemma holders_pos {use : ι → Option α} {i : ι} {a : α} (h : use i = some a) : 0 < holders use a :=
  Finset.card_pos.mpr ⟨i, by simp [h]⟩

lemma holders_le (use : ι → Option α) (a : α) : holders use a ≤ Fintype.card ι :=
  Finset.card_le_univ _

variable {refs made gone : α → ℕ} {use : ι → Option α} {hand : Option α} {a b : α} {i : ι}

namespace Balanced

lemma exchange [DecidableEq ι] (h : Balanced refs made gone use hand) (i : ι) :
    Balanced refs made gone (Function.update use i hand) (use i) := by
  refine ⟨fun c => ?_, h.alive⟩
  have hmove := holders_update use i hand c
  have hrefs := h.refs_eq c
  omega

lemma create (h : Balanced refs made gone use none) (ha : made a = gone a) :
    Balanced (Function.update refs a 1) (Function.update made a (made a + 1)) gone use (some a) := by
  have hzero : refs a = 0 := by
    have := h.alive a
    omega
  refine ⟨fun c => ?_, fun c => ?_⟩
  · rcases eq_or_ne c a with rfl | hc
    · have := h.refs_eq c
      simp_all [inHand]
    · simp [h.refs_eq c, update_of_ne hc, inHand, Ne.symm hc]
  · rcases eq_or_ne c a with rfl | hc
    · simp [ha]
    · simp [update_of_ne hc, h.alive c]

lemma retain (h : Balanced refs made gone use none) (ha : refs a ≠ 0) :
    Balanced (Function.update refs a (refs a + 1)) made gone use (some a) := by
  refine ⟨fun c => ?_, fun c => ?_⟩
  · rcases eq_or_ne c a with rfl | hc
    · simp [h.refs_eq c, inHand]
    · simp [h.refs_eq c, update_of_ne hc, inHand, Ne.symm hc]
  · rcases eq_or_ne c a with rfl | hc
    · have := h.alive c
      simp only [update_self]
      omega
    · simp [update_of_ne hc, h.alive c]

lemma release (h : Balanced refs made gone use (some a)) :
    Balanced (Function.update refs a (refs a - 1)) made
      (Function.update gone a (gone a + if refs a = 1 then 1 else 0)) use none := by
  have ha : refs a = holders use a + 1 := by simpa [inHand] using h.refs_eq a
  refine ⟨fun c => ?_, fun c => ?_⟩
  · rcases eq_or_ne c a with rfl | hc
    · simp [ha]
    · have := h.refs_eq c
      simp_all [inHand, Ne.symm hc]
  · rcases eq_or_ne c a with rfl | hc
    · have := h.alive c
      simp only [update_self]
      split <;> omega
    · simp [update_of_ne hc, h.alive c]

lemma refs_ne_zero (h : Balanced refs made gone use hand) (ha : use i = some a ∨ hand = some a) :
    refs a ≠ 0 := by
  rw [h.refs_eq a]
  rcases ha with ha | rfl
  · have := holders_pos ha
    omega
  · simp [inHand]

end Balanced

end Lib
