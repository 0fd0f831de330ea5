import Mathlib.Tactic

/-!
# An index as a cursor

Enumerating a list that changes on the way.  The cursor is an index into the list; `next` delivers the
item there and moves on, new items come first in the list, and items can be removed.  `stay` are the
items that have been in the list from the beginning.

If nothing more is changed, the enumeration delivers what is behind the index, so it is faithful if each
of the items that stay is delivered once, counting what was delivered and what is to come (`Faithful`).
A change keeps it so exactly if it does not push an item that stays over the index
(`faithful_step_iff`): a new item pushes the last one delivered back behind the index, and removing an
item before the index pulls the next one in front of it.
-/

namespace Lib

open List

variable {α : Type*} [BEq α]

/-- A list, an index, what was delivered, and what has been in the list from the beginning. -/
structure Cursor (α : Type*) where
  items : List α
  index : ℕ
  seen : List α
  stay : List α

inductive CursorOp (α : Type*)
  | next
  | insert (x : α)
  | remove (x : α)

namespace Cursor

/-- One step of an enumeration, or one change of the list. -/
def step (c : Cursor α) : CursorOp α → Cursor α
  | .next =>
    if h : c.index < c.items.length then
      { c with index := c.index + 1, seen := c.seen ++ [c.items[c.index]] }
    else c
  | .insert x => { c with items := x :: c.items }
  | .remove x => { c with items := c.items.erase x, stay := c.stay.erase x }

/-- The items are different, and those that stay are there. -/
structure Proper (c : Cursor α) : Prop where
  nodup : c.items.Nodup
  stayNodup : c.stay.Nodup
  subset : ∀ x ∈ c.stay, x ∈ c.items

/-- A new item is new. -/
def Fits (c : Cursor α) : CursorOp α → Prop
  | .insert x => x ∉ c.items
  | _ => True

/-- What stays is delivered once if nothing more is changed. -/
def Faithful (c : Cursor α) : Prop :=
  ∀ x ∈ c.stay, (c.seen ++ c.items.drop c.index).count x = 1

/-- The item right before the index. -/
def last (c : Cursor α) : Option α := if c.index = 0 then none else c.items[c.index - 1]?

/-- No item that stays is pushed over the index. -/
def Harmless (c : Cursor α) : CursorOp α → Prop
  | .next => True
  | .insert _ => ∀ x ∈ c.stay, c.last ≠ some x
  | .remove y => y ∈ c.items.take c.index → ∀ x ∈ c.stay, c.items[c.index]? ≠ some x

variable {c : Cursor α} {op : CursorOp α} {x : α}

lemma faithful_next : (c.step .next).Faithful ↔ c.Faithful := by
  rw [step]
  split_ifs with h
  · rw [Faithful, Faithful]
    simp only [append_assoc, singleton_append, getElem_cons_drop]
  · exact Iff.rfl

variable [LawfulBEq α]

lemma Proper.step (h : c.Proper) (hop : c.Fits op) : (c.step op).Proper := by
  cases op with
  | next =>
    rw [Cursor.step]
    split_ifs
    · exact ⟨h.nodup, h.stayNodup, h.subset⟩
    · exact h
  | insert x =>
    refine ⟨List.nodup_cons.mpr ⟨hop, h.nodup⟩, h.stayNodup, fun y hy => ?_⟩
    exact mem_cons_of_mem _ (h.subset y hy)
  | remove x =>
    refine ⟨h.nodup.erase x, h.stayNodup.erase x, fun y hy => ?_⟩
    obtain ⟨hne, hmem⟩ := h.stayNodup.mem_erase_iff.mp hy
    exact (mem_erase_of_ne hne).mpr (h.subset y hmem)

lemma count_insert {y : α} (hxy : y ≠ x) :
    ((y :: c.items).drop c.index).count x =
      (c.items.drop c.index).count x + if c.last == some x then 1 else 0 := by
  rw [last]
  cases c.index with
  | zero => rw [if_pos rfl, if_neg (by simp), drop_zero, drop_zero, count_cons_of_ne hxy, Nat.add_zero]
  | succ i =>
    rw [drop_succ_cons, if_neg (Nat.succ_ne_zero i), Nat.add_sub_cancel]
    by_cases hi : i < c.items.length
    · rw [drop_eq_getElem_cons hi, count_cons, getElem?_eq_getElem hi]
      rfl
    · rw [drop_eq_nil_of_le (by omega), drop_eq_nil_of_le (by omega),
        getElem?_eq_none (by omega), if_neg (by simp)]
      rfl

lemma drop_erase_of_mem_take {l : List α} {y : α} {k : ℕ} (h : y ∈ l.take k) :
    (l.erase y).drop k = l.drop (k + 1) := by
  have hlen := length_erase_of_mem h
  rcases Nat.lt_or_ge l.length k with hlt | hle
  · have := (erase_sublist (a := y) (l := l)).length_le
    rw [drop_eq_nil_of_le (by omega), drop_eq_nil_of_le (by omega)]
  · have htake : (l.take k).length = k := by
      rw [length_take]
      omega
    have hpos : 0 < (l.take k).length := length_pos_of_mem h
    conv_lhs => rw [← take_append_drop k l, erase_append_left _ h]
    rw [drop_append, hlen, htake, drop_eq_nil_of_le (by omega), nil_append, drop_drop]
    congr 1
    omega

lemma drop_erase_of_not_mem_take {l : List α} {y : α} {k : ℕ} (h : y ∉ l.take k) :
    (l.erase y).drop k = (l.drop k).erase y := by
  rcases Nat.lt_or_ge l.length k with hlt | hle
  · have := (erase_sublist (a := y) (l := l)).length_le
    rw [drop_eq_nil_of_le (by omega), drop_eq_nil_of_le (by omega), erase_nil]
  · have htake : (l.take k).length = k := by
      rw [length_take]
      omega
    conv_lhs => rw [← take_append_drop k l, erase_append_right _ h]
    rw [drop_left' htake]

/-- **Which changes an index survives.** -/
theorem faithful_step_iff (hc : c.Proper) (hop : c.Fits op) (h : c.Faithful) :
    (c.step op).Faithful ↔ c.Harmless op := by
  cases op with
  | next => exact iff_of_true (faithful_next.mpr h) trivial
  | insert y =>
    have hcount : ∀ x ∈ c.stay, (c.seen ++ (y :: c.items).drop c.index).count x =
        1 + if c.last == some x then 1 else 0 := by
      intro x hx
      have hxy : y ≠ x := by
        rintro rfl
        exact hop (hc.subset y hx)
      have hone := h x hx
      rw [count_append] at hone ⊢
      rw [count_insert hxy, ← Nat.add_assoc, hone]
    constructor
    · intro hf x hx heq
      have hone := (hcount x hx).symm.trans (hf x hx)
      rw [if_pos (beq_iff_eq.mpr heq)] at hone
      omega
    · intro hharm x hx
      refine (hcount x hx).trans ?_
      rw [if_neg fun heq => hharm x hx (beq_iff_eq.mp heq)]
  | remove y =>
    have hstay : ∀ x, x ∈ c.stay.erase y ↔ x ≠ y ∧ x ∈ c.stay := fun x => hc.stayNodup.mem_erase_iff
    by_cases hbefore : y ∈ c.items.take c.index
    · rw [Faithful]
      simp only [step, drop_erase_of_mem_take hbefore, hstay]
      by_cases hend : c.index < c.items.length
      · -- the next item is lost
        have hnext : ∀ x, (c.seen ++ c.items.drop c.index).count x =
            (c.seen ++ c.items.drop (c.index + 1)).count x + if c.items[c.index] == x then 1 else 0 := by
          intro x
          rw [drop_eq_getElem_cons hend, count_append, count_append, count_cons, Nat.add_assoc]
        have hne : c.items[c.index] ≠ y := by
          rintro rfl
          have hdisj := disjoint_take_drop hc.nodup (le_refl c.index)
          refine hdisj hbefore ?_
          rw [drop_eq_getElem_cons hend]
          exact mem_cons_self
        constructor
        · intro hf _ x hx heq
          have hx' : c.items[c.index] = x := by simpa [getElem?_eq_getElem hend] using heq
          have hone := h x hx
          rw [hnext, if_pos (beq_iff_eq.mpr hx'), hf x ⟨hx' ▸ hne, hx⟩] at hone
          omega
        · rintro hharm x ⟨-, hx⟩
          have hx' : ¬ (c.items[c.index] == x) = true := by
            simpa [getElem?_eq_getElem hend] using hharm hbefore x hx
          have hone := h x hx
          rwa [hnext, if_neg hx', Nat.add_zero] at hone
      · refine iff_of_true ?_ ?_
        · rintro x ⟨-, hx⟩
          have hone := h x hx
          rw [drop_eq_nil_of_le (not_lt.mp hend)] at hone
          rwa [drop_eq_nil_of_le (by omega)]
        · intro _ x _ heq
          rw [getElem?_eq_none (not_lt.mp hend)] at heq
          cases heq
    · refine iff_of_true ?_ fun hmem => absurd hmem hbefore
      intro x hx
      obtain ⟨hne, hmem⟩ := (hstay x).mp hx
      have hone := h x hmem
      simp only [step, drop_erase_of_not_mem_take hbefore]
      rw [count_append] at hone ⊢
      rwa [count_erase_of_ne hne]

end Cursor

end Lib
