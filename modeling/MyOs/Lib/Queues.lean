import Mathlib.Data.List.ReduceOption
import MyOs.Lib.Rings

/-!
# Bounded queues and their implementations

The abstract queue is a list, and a call appends to it, unless it is full, or takes its head (`fifoRun`).
What comes out of it and what stays in it is what was accepted, in order (`fifoRun_order`).

An implementation is a state with two operations.  `Refines` says what one call does, in terms of the list
a state stands for; it follows that the implementation answers every sequence of calls as the abstract
queue does (`Refines.run`).

`IndexRing` is the usual implementation: an array and two indices that are counted up modulo its size.
With its indices in range it is a `Ring` (`toRing_enqueue`, `toRing_dequeue`), and through the rules of
`Ring` it refines a queue of one value less than there are slots (`refines_of_ring`).
-/

namespace Lib

open List Function

variable {σ α β ρ : Type*}

/-! ## The abstract queue -/

/-- A call of a queue. -/
inductive QueueCall (β : Type*)
  | put (b : β)
  | get

/-- Append to a queue that is not full. -/
def fifoPut (cap : ℕ) (q : List α) (a : α) : List α := if q.length < cap then q ++ [a] else q

/-- The queue after a sequence of calls, and what the `get`s returned. -/
def fifoRun (cap : ℕ) (elem : β → α) : List α → List (QueueCall β) → List α × List (Option α)
  | q, [] => (q, [])
  | q, .put b :: calls => fifoRun cap elem (fifoPut cap q (elem b)) calls
  | q, .get :: calls =>
    ((fifoRun cap elem q.tail calls).1, q.head? :: (fifoRun cap elem q.tail calls).2)

/-- The values that were put into a queue that had room. -/
def fifoAccepted (cap : ℕ) (elem : β → α) : List α → List (QueueCall β) → List α
  | _, [] => []
  | q, .put b :: calls =>
    (if q.length < cap then [elem b] else []) ++ fifoAccepted cap elem (fifoPut cap q (elem b)) calls
  | q, .get :: calls => fifoAccepted cap elem q.tail calls

/-- **First in, first out.**  What was there and what was accepted comes out in order, and the rest stays. -/
lemma fifoRun_order (cap : ℕ) (elem : β → α) (q : List α) (calls : List (QueueCall β)) :
    q ++ fifoAccepted cap elem q calls =
      (fifoRun cap elem q calls).2.reduceOption ++ (fifoRun cap elem q calls).1 := by
  induction calls generalizing q with
  | nil => simp [fifoRun, fifoAccepted]
  | cons call calls ih =>
    cases call with
    | put b =>
      rw [fifoRun, ← ih, fifoAccepted, fifoPut]
      split_ifs <;> simp
    | get =>
      cases q with
      | nil =>
        rw [fifoRun, fifoAccepted]
        simpa using ih []
      | cons a q =>
        rw [fifoRun, fifoAccepted]
        simpa using ih q

lemma mem_fifoRun {cap : ℕ} {elem : β → α} {a : α} {calls : List (QueueCall β)} :
    ∀ {q : List α}, a ∈ (fifoRun cap elem q calls).1 → a ∈ q ∨ ∃ b, .put b ∈ calls ∧ elem b = a := by
  induction calls with
  | nil => exact fun h => Or.inl h
  | cons call calls ih =>
    intro q h
    cases call with
    | put b =>
      rcases ih h with hmem | ⟨b', hb', rfl⟩
      · have hput : a ∈ q ∨ a = elem b := by
          rw [fifoPut] at hmem
          split_ifs at hmem
          · simpa using hmem
          · exact Or.inl hmem
        exact hput.imp_right fun hab => ⟨b, mem_cons_self, hab.symm⟩
      · exact Or.inr ⟨b', mem_cons_of_mem _ hb', rfl⟩
    | get =>
      rcases ih h with hmem | ⟨b, hb, rfl⟩
      · exact Or.inl (mem_of_mem_tail hmem)
      · exact Or.inr ⟨b, mem_cons_of_mem _ hb, rfl⟩

/-! ## Implementations -/

/-- The operations of an implementation; `get` reports something and changes the state. -/
structure QueueImpl (σ β ρ : Type*) where
  put : σ → β → σ
  get : σ → ρ × σ

/-- The state after a sequence of calls, and what was reported. -/
def QueueImpl.run (Q : QueueImpl σ β ρ) : σ → List (QueueCall β) → σ × List ρ
  | s, [] => (s, [])
  | s, .put b :: calls => Q.run (Q.put s b) calls
  | s, .get :: calls => ((Q.run (Q.get s).2 calls).1, (Q.get s).1 :: (Q.run (Q.get s).2 calls).2)

/-- Each call does to `view` what it does to the abstract queue, and a full queue is left alone. -/
structure QueueImpl.Refines (Q : QueueImpl σ β ρ) (cap : ℕ) (elem : β → α) (report : Option α → ρ)
    (ok : σ → Prop) (view : σ → List α) : Prop where
  length_le : ∀ s, ok s → (view s).length ≤ cap
  put_ok : ∀ s b, ok s → ok (Q.put s b)
  put_view : ∀ s b, ok s → view (Q.put s b) = fifoPut cap (view s) (elem b)
  put_full : ∀ s b, ok s → (view s).length = cap → Q.put s b = s
  get_ok : ∀ s, ok s → ok (Q.get s).2
  get_view : ∀ s, ok s → view (Q.get s).2 = (view s).tail
  get_report : ∀ s, ok s → (Q.get s).1 = report (view s).head?

/-- After some calls from `s₀` an implementation is where the abstract queue is, and has reported what that
returned: the accepted values in order, of which those that have not come out are still there.  A put is
dropped, and nothing changes, exactly if the queue is full. -/
structure QueueImpl.ActsAsFifo (Q : QueueImpl σ β ρ) (cap : ℕ) (elem : β → α) (report : Option α → ρ)
    (ok : σ → Prop) (view : σ → List α) (s₀ : σ) (calls : List (QueueCall β)) : Prop where
  in_range : ok (Q.run s₀ calls).1
  view_eq : view (Q.run s₀ calls).1 = (fifoRun cap elem [] calls).1
  reports_eq : (Q.run s₀ calls).2 = (fifoRun cap elem [] calls).2.map report
  order : fifoAccepted cap elem [] calls =
    (fifoRun cap elem [] calls).2.reduceOption ++ view (Q.run s₀ calls).1
  length_le : (view (Q.run s₀ calls).1).length ≤ cap
  dropped_iff : ∀ b, Q.put (Q.run s₀ calls).1 b = (Q.run s₀ calls).1 ↔
    (view (Q.run s₀ calls).1).length = cap
  next_report : (Q.get (Q.run s₀ calls).1).1 = report (view (Q.run s₀ calls).1).head?

namespace QueueImpl.Refines

variable {Q : QueueImpl σ β ρ} {cap : ℕ} {elem : β → α} {report : Option α → ρ} {ok : σ → Prop}
  {view : σ → List α}

/-- **A refinement answers every sequence of calls as the abstract queue does.** -/
theorem run (h : Q.Refines cap elem report ok view) (calls : List (QueueCall β)) :
    ∀ s, ok s → ok (Q.run s calls).1 ∧ view (Q.run s calls).1 = (fifoRun cap elem (view s) calls).1 ∧
      (Q.run s calls).2 = (fifoRun cap elem (view s) calls).2.map report := by
  induction calls with
  | nil => exact fun s hs => ⟨hs, rfl, rfl⟩
  | cons call calls ih =>
    intro s hs
    cases call with
    | put b =>
      rw [QueueImpl.run, fifoRun, ← h.put_view s b hs]
      exact ih _ (h.put_ok s b hs)
    | get =>
      obtain ⟨hok, hview, hout⟩ := ih _ (h.get_ok s hs)
      rw [h.get_view s hs] at hview hout
      refine ⟨hok, hview, ?_⟩
      rw [QueueImpl.run, fifoRun, map_cons, h.get_report s hs, hout]

lemma put_eq_self_iff (h : Q.Refines cap elem report ok view) {s : σ} (hs : ok s) (b : β) :
    Q.put s b = s ↔ (view s).length = cap := by
  refine ⟨fun heq => ?_, h.put_full s b hs⟩
  by_contra hne
  have hroom : (view s).length < cap := lt_of_le_of_ne (h.length_le s hs) hne
  have hview := h.put_view s b hs
  rw [heq, fifoPut, if_pos hroom] at hview
  simpa using congrArg List.length hview

/-- **A refinement acts as a queue from every state that stands for the empty one.** -/
theorem actsAsFifo (h : Q.Refines cap elem report ok view) (s0 : σ) (hok : ok s0) (hempty : view s0 = [])
    (calls : List (QueueCall β)) : Q.ActsAsFifo cap elem report ok view s0 calls := by
  obtain ⟨hrange, hview, hreports⟩ := h.run calls s0 hok
  rw [hempty] at hview hreports
  refine ⟨hrange, hview, hreports, ?_, h.length_le _ hrange, h.put_eq_self_iff hrange,
    h.get_report _ hrange⟩
  rw [hview]
  simpa using fifoRun_order cap elem [] calls

end QueueImpl.Refines

/-- Where a report `f` tells the values of the queue from nothing, it says exactly if the queue is empty. -/
lemma QueueImpl.ActsAsFifo.empty_iff {τ : Type*} {Q : QueueImpl σ β ρ} {cap : ℕ} {elem : β → α}
    {report : Option α → ρ} {ok : σ → Prop} {view : σ → List α} {s0 : σ} {calls : List (QueueCall β)}
    (h : Q.ActsAsFifo cap elem report ok view s0 calls) (f : ρ → τ)
    (hf : ∀ a ∈ view (Q.run s0 calls).1, f (report (some a)) ≠ f (report none)) :
    f (Q.get (Q.run s0 calls).1).1 = f (report none) ↔ view (Q.run s0 calls).1 = [] := by
  rw [h.next_report]
  cases hview : view (Q.run s0 calls).1 with
  | nil => simp
  | cons a rest =>
    rw [hview] at hf
    simpa using hf a mem_cons_self

/-! ## An array with two indices -/

/-- An array, the index of the next slot to fill and that of the next one to empty. -/
structure IndexRing (α : Type*) where
  slots : ℕ → α
  head : ℕ
  tail : ℕ

namespace IndexRing

variable {n : ℕ} {r : IndexRing α}

/-- An array of equal values, from which nothing is to be taken. -/
def clear (a : α) : IndexRing α := ⟨fun _ => a, 0, 0⟩

/-- Fill the next slot, unless only one is free. -/
def enqueue (n : ℕ) (r : IndexRing α) (a : α) : IndexRing α :=
  let next := (r.head + 1) % n
  if next = r.tail then r else ⟨Function.update r.slots r.head a, next, r.tail⟩

/-- Empty the next slot, if one is filled. -/
def dequeue (n : ℕ) (r : IndexRing α) : Option (α × IndexRing α) :=
  if r.tail = r.head then none else some (r.slots r.tail, ⟨r.slots, r.head, (r.tail + 1) % n⟩)

/-- Both indices point into the array. -/
def InRange (n : ℕ) (r : IndexRing α) : Prop := r.head < n ∧ r.tail < n

variable [NeZero n]

/-- The ring of the first `n` slots. -/
def toRing (n : ℕ) [NeZero n] (r : IndexRing α) : Ring α n :=
  ⟨fun i => r.slots i.val, Fin.ofNat n r.head, Fin.ofNat n r.tail⟩

/-- The values in the array, oldest first. -/
def contents (n : ℕ) [NeZero n] (r : IndexRing α) : List α := (r.toRing n).contents

lemma inRange_clear (a : α) : InRange n (clear a) := ⟨Nat.pos_of_neZero n, Nat.pos_of_neZero n⟩

lemma contents_clear (a : α) : contents n (clear a) = [] := Ring.contents_clear a

lemma ofNat_add_one (k : ℕ) : Fin.ofNat n ((k + 1) % n) = Fin.ofNat n k + 1 := by
  apply Fin.ext
  simp [Fin.val_add]

lemma ofNat_inj {i j : ℕ} (hi : i < n) (hj : j < n) : Fin.ofNat n i = Fin.ofNat n j ↔ i = j := by
  rw [Fin.ext_iff, Fin.val_ofNat, Fin.val_ofNat, Nat.mod_eq_of_lt hi, Nat.mod_eq_of_lt hj]

lemma full_toRing (h : InRange n r) : (r.toRing n).Full ↔ (r.head + 1) % n = r.tail := by
  rw [Ring.Full, toRing, ← ofNat_add_one, ofNat_inj (Nat.mod_lt _ (Nat.pos_of_neZero n)) h.2]

lemma inRange_enqueue (h : InRange n r) (a : α) : InRange n (r.enqueue n a) := by
  rw [enqueue]
  split_ifs
  · exact h
  · exact ⟨Nat.mod_lt _ (Nat.pos_of_neZero n), h.2⟩

lemma toRing_enqueue (h : InRange n r) (a : α) : (r.enqueue n a).toRing n = (r.toRing n).push a := by
  rw [enqueue, Ring.push]
  by_cases hfull : (r.head + 1) % n = r.tail
  · rw [if_pos hfull, if_pos ((full_toRing h).mpr hfull)]
  · rw [if_neg hfull, if_neg (mt (full_toRing h).mp hfull)]
    simp only [toRing, ofNat_add_one, Ring.mk.injEq, and_true]
    funext i
    by_cases hi : i = Fin.ofNat n r.head
    · subst hi
      rw [update_self, Fin.val_ofNat, Nat.mod_eq_of_lt h.1, update_self]
    · have hne : i.val ≠ r.head := by
        intro heq
        exact hi (Fin.ext (by rw [heq, Fin.val_ofNat, Nat.mod_eq_of_lt h.1]))
      rw [update_of_ne hi, update_of_ne hne]

lemma toRing_dequeue (h : InRange n r) :
    (r.dequeue n = none ∧ (r.toRing n).pop = none) ∨
      ∃ a r', r.dequeue n = some (a, r') ∧ InRange n r' ∧ (r.toRing n).pop = some (a, r'.toRing n) := by
  rw [dequeue, Ring.pop]
  by_cases hempty : r.tail = r.head
  · left
    exact ⟨if_pos hempty, if_pos ((ofNat_inj h.2 h.1).mpr hempty)⟩
  · right
    refine ⟨_, _, if_neg hempty, ⟨h.1, Nat.mod_lt _ (Nat.pos_of_neZero n)⟩, ?_⟩
    have hne : ¬ (r.toRing n).tail = (r.toRing n).head := mt (ofNat_inj h.2 h.1).mp hempty
    rw [if_neg hne]
    simp only [toRing, ofNat_add_one, Fin.val_ofNat, Nat.mod_eq_of_lt h.2]

lemma length_contents (r : IndexRing α) : (r.contents n).length = (r.toRing n).count := by
  simp [contents, Ring.contents]

lemma length_contents_le (r : IndexRing α) : (r.contents n).length ≤ n - 1 := by
  have := (r.toRing n).count_lt
  rw [length_contents]
  omega

lemma enqueue_of_full (h : InRange n r) (hfull : (r.contents n).length = n - 1) (a : α) :
    r.enqueue n a = r := by
  have hpos := Nat.pos_of_neZero n
  rw [length_contents] at hfull
  have hF : (r.toRing n).Full := Ring.full_iff_count.mpr (by omega)
  rw [enqueue, if_pos ((full_toRing h).mp hF)]

lemma contents_enqueue (h : InRange n r) (a : α) :
    (r.enqueue n a).contents n = fifoPut (n - 1) (r.contents n) a := by
  rw [fifoPut]
  split_ifs with hroom
  · rw [length_contents] at hroom
    have hF : ¬ (r.toRing n).Full := fun hF => by
      have := Ring.full_iff_count.mp hF
      omega
    rw [contents, toRing_enqueue h, Ring.contents_push hF, contents]
  · rw [enqueue_of_full h (le_antisymm (length_contents_le r) (not_lt.mp hroom))]

lemma contents_dequeue (h : InRange n r) :
    (r.dequeue n = none ∧ r.contents n = []) ∨
      ∃ a r', r.dequeue n = some (a, r') ∧ InRange n r' ∧ r.contents n = a :: r'.contents n := by
  obtain ⟨hnone, hpop⟩ | ⟨a, r', hsome, hrange, hpop⟩ := toRing_dequeue h
  · exact Or.inl ⟨hnone, Ring.pop_eq_none.mp hpop⟩
  · exact Or.inr ⟨a, r', hsome, hrange, Ring.contents_of_pop hpop⟩

end IndexRing

open IndexRing in
/-- **An array with two indices is a bounded queue**, as a part `ring` of any state whose operations act on
it by `enqueue` and `dequeue`. -/
theorem refines_of_ring {n : ℕ} [NeZero n] {Q : QueueImpl σ β ρ} {elem : β → α} {report : Option α → ρ}
    (ring : σ → IndexRing α) (store : σ → IndexRing α → σ) (hstore : ∀ s r, ring (store s r) = r)
    (hsame : ∀ s, store s (ring s) = s) (hput : ∀ s b, Q.put s b = store s ((ring s).enqueue n (elem b)))
    (hnone : ∀ s, (ring s).dequeue n = none → Q.get s = (report none, s))
    (hsome : ∀ s a r, (ring s).dequeue n = some (a, r) → Q.get s = (report (some a), store s r)) :
    Q.Refines (n - 1) elem report (fun s => InRange n (ring s)) fun s => (ring s).contents n where
  length_le s _ := length_contents_le (ring s)
  put_ok s b hs := by
    rw [hput, hstore]
    exact inRange_enqueue hs _
  put_view s b hs := by
    rw [hput, hstore]
    exact contents_enqueue hs _
  put_full s b hs hfull := by
    rw [hput, enqueue_of_full hs hfull, hsame]
  get_ok s hs := by
    obtain ⟨h, -⟩ | ⟨a, r, h, hr, -⟩ := contents_dequeue hs
    · rw [hnone s h]
      exact hs
    · rw [hsome s a r h, hstore]
      exact hr
  get_view s hs := by
    obtain ⟨h, hc⟩ | ⟨a, r, h, -, hc⟩ := contents_dequeue hs
    · rw [hnone s h, hc]
      rfl
    · rw [hsome s a r h, hstore, hc]
      rfl
  get_report s hs := by
    obtain ⟨h, hc⟩ | ⟨a, r, h, -, hc⟩ := contents_dequeue hs
    · rw [hnone s h, hc]
      rfl
    · rw [hsome s a r h, hc]
      rfl

end Lib
