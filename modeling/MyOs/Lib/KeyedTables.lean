import Mathlib.Data.Finset.Card
import Mathlib.Data.List.Nodup
import Mathlib.Tactic

/-!
# Bounded tables with keys

A table is a list of entries with a key each, and never more than `cap` of them.  `enter` writes an entry
over the one that has its key, or at the end if no entry has it and there is room.

`lookup` is what such a table means.  The invariant is `Keyed`: no key twice, and no more than `cap`
entries.  It survives `enter` (`Keyed.enter`), and the table after it is the old one changed at one key
(`lookup_enter`).  If there is room for all the keys, a run of entries leaves at each key the last entry
that has it (`lookup_enterAll`), so entries that agree where their keys do can come in any order
(`lookup_enterAll_of_agree`).
-/

namespace Lib

open List

variable {α κ : Type*} [DecidableEq κ] {key : α → κ} {cap : ℕ} {a b : α} {l l' : List α} {k : κ}

/-- The entry with a key. -/
def lookup (key : α → κ) (k : κ) (l : List α) : Option α :=
  l.find? fun a => decide (key a = k)

/-- The table with the first entry that has the key of `a` replaced, if there is one. -/
def overwrite (key : α → κ) (a : α) : List α → Option (List α)
  | [] => none
  | b :: l => if key b = key a then some (a :: l) else (overwrite key a l).map (b :: ·)

/-- The table with `a` in it, or `none` if it is full. -/
def enter (key : α → κ) (cap : ℕ) (a : α) (l : List α) : Option (List α) :=
  match overwrite key a l with
  | some l' => some l'
  | none => if cap ≤ l.length then none else some (l ++ [a])

/-- No key twice, and no more entries than there is room for. -/
structure Keyed (key : α → κ) (cap : ℕ) (l : List α) : Prop where
  nodup : (l.map key).Nodup
  length_le : l.length ≤ cap

@[simp] lemma lookup_nil : lookup key k ([] : List α) = none := rfl

lemma lookup_cons : lookup key k (a :: l) = if key a = k then some a else lookup key k l := by
  by_cases h : key a = k <;> simp [lookup, h]

lemma lookup_append : lookup key k (l ++ l') = (lookup key k l).or (lookup key k l') :=
  find?_append

lemma lookup_eq_none : lookup key k l = none ↔ k ∉ l.map key := by
  simp [lookup]

lemma mem_of_lookup (h : lookup key k l = some a) : a ∈ l ∧ key a = k :=
  ⟨mem_of_find?_eq_some h, by simpa using find?_some h⟩

/-- In a table without a key twice, the entry with a key is the one entry that has it. -/
lemma lookup_eq_some (h : (l.map key).Nodup) : lookup key k l = some a ↔ a ∈ l ∧ key a = k := by
  refine ⟨mem_of_lookup, ?_⟩
  rintro ⟨ha, rfl⟩
  cases hb : lookup key (key a) l with
  | none => exact absurd (mem_map_of_mem ha) (lookup_eq_none.mp hb)
  | some b =>
    have hb := mem_of_lookup hb
    rw [inj_on_of_nodup_map h ha hb.1 hb.2.symm]

lemma overwrite_eq_none : overwrite key a l = none ↔ key a ∉ l.map key := by
  induction l with
  | nil => simp [overwrite]
  | cons b l ih =>
    by_cases h : key b = key a
    · simp [overwrite, h]
    · simp [overwrite, h, ih, Ne.symm h]

lemma map_overwrite (h : overwrite key a l = some l') : l'.map key = l.map key := by
  induction l generalizing l' with
  | nil => simp [overwrite] at h
  | cons b l ih =>
    rw [overwrite] at h
    split_ifs at h with hb
    · cases h
      simp [hb]
    · obtain ⟨m, hm, rfl⟩ := Option.map_eq_some_iff.mp h
      simp [ih hm]

lemma lookup_overwrite (h : overwrite key a l = some l') :
    lookup key k l' = if key a = k then some a else lookup key k l := by
  induction l generalizing l' with
  | nil => simp [overwrite] at h
  | cons b l ih =>
    rw [overwrite] at h
    split_ifs at h with hb
    · cases h
      rw [lookup_cons, lookup_cons, hb]
      split_ifs <;> rfl
    · obtain ⟨m, hm, rfl⟩ := Option.map_eq_some_iff.mp h
      rw [lookup_cons, lookup_cons, ih hm]
      by_cases hk : key b = k
      · rw [if_pos hk, if_pos hk, if_neg (fun h => hb (hk.trans h.symm))]
      · rw [if_neg hk, if_neg hk]

lemma enter_eq_none : enter key cap a l = none ↔ key a ∉ l.map key ∧ cap ≤ l.length := by
  rw [enter]
  cases h : overwrite key a l with
  | some l' =>
    have hold : ¬ key a ∉ l.map key := fun hnew => by simp [overwrite_eq_none.mpr hnew] at h
    simp only [reduceCtorEq, hold, false_and]
  | none =>
    have hnew : key a ∉ l.map key := overwrite_eq_none.mp h
    simp only [ite_eq_left_iff, reduceCtorEq, imp_false, not_not, hnew, not_false_eq_true, true_and]

lemma enter_eq_some (h : enter key cap a l = some l') :
    overwrite key a l = some l' ∨
      (key a ∉ l.map key ∧ l.length < cap ∧ l' = l ++ [a]) := by
  rw [enter] at h
  cases ho : overwrite key a l with
  | some m =>
    rw [ho] at h
    exact Or.inl h
  | none =>
    rw [ho] at h
    refine Or.inr ⟨overwrite_eq_none.mp ho, ?_⟩
    simp only [Option.ite_none_left_eq_some, Option.some.injEq] at h
    exact ⟨not_le.mp h.1, h.2.symm⟩

/-- **One entry changes the table at its own key only.** -/
lemma lookup_enter (h : enter key cap a l = some l') :
    lookup key k l' = if key a = k then some a else lookup key k l := by
  obtain ho | ⟨hnew, -, rfl⟩ := enter_eq_some h
  · exact lookup_overwrite ho
  · rw [lookup_append, lookup_cons, lookup_nil]
    split_ifs with hk
    · rw [lookup_eq_none.mpr (hk ▸ hnew)]
      rfl
    · exact Option.or_none

lemma Keyed.enter (hl : Keyed key cap l) (h : enter key cap a l = some l') : Keyed key cap l' := by
  obtain ho | ⟨hnew, hlen, rfl⟩ := enter_eq_some h
  · have hmap := map_overwrite ho
    refine ⟨hmap ▸ hl.nodup, ?_⟩
    have hlen : l'.length = l.length := by simpa using congrArg length hmap
    exact hlen ▸ hl.length_le
  · refine ⟨?_, by simpa using hlen⟩
    rw [map_append, nodup_append]
    refine ⟨hl.nodup, by simp, ?_⟩
    intro x hx y hy hxy
    simp only [map_cons, map_nil, mem_singleton] at hy
    exact hnew (hy ▸ hxy ▸ hx)

lemma mem_keys_enter (h : enter key cap a l = some l') :
    k ∈ l'.map key ↔ k = key a ∨ k ∈ l.map key := by
  rw [← not_iff_not, ← lookup_eq_none, lookup_enter h]
  by_cases hk : key a = k
  · simp [hk]
  · rw [if_neg hk, lookup_eq_none]
    simp [Ne.symm hk]

lemma Keyed.length_eq_card (hl : Keyed key cap l) : l.length = (l.map key).toFinset.card := by
  rw [toFinset_card_of_nodup hl.nodup, length_map]

/-- The table after a run of entries, those that found it full left out. -/
def enterAll (key : α → κ) (cap : ℕ) (l : List α) (as : List α) : List α :=
  as.foldl (fun l a => (Lib.enter key cap a l).getD l) l

lemma Keyed.enter_isSome {as : List α} (hl : Keyed key cap l)
    (hroom : ((l ++ a :: as).map key).toFinset.card ≤ cap) :
    ∃ l', Lib.enter key cap a l = some l' ∧ Keyed key cap l' ∧
      ((l' ++ as).map key).toFinset.card ≤ cap := by
  have hsome : Lib.enter key cap a l ≠ none := by
    intro hnone
    obtain ⟨hnew, hfull⟩ := enter_eq_none.mp hnone
    have hsub : insert (key a) (l.map key).toFinset ⊆ ((l ++ a :: as).map key).toFinset := by
      intro k hk
      simp only [Finset.mem_insert, mem_toFinset] at hk
      simp only [mem_toFinset, map_append, map_cons, mem_append, mem_cons]
      tauto
    have hcard := Finset.card_le_card hsub
    rw [Finset.card_insert_of_notMem (by simpa using hnew), ← hl.length_eq_card] at hcard
    omega
  obtain ⟨l', h⟩ := Option.ne_none_iff_exists'.mp hsome
  refine ⟨l', h, hl.enter h, ?_⟩
  have hkeys : ((l' ++ as).map key).toFinset = ((l ++ a :: as).map key).toFinset := by
    ext k
    have := mem_keys_enter (k := k) h
    simp only [mem_toFinset, map_append, map_cons, mem_append, mem_cons]
    tauto
  exact hkeys ▸ hroom

/-- **A run of entries that all fit.**  At each key the table holds the last entry of the run with that
key, and what it held before if there is none. -/
lemma lookup_enterAll {as : List α} (hl : Keyed key cap l)
    (hroom : ((l ++ as).map key).toFinset.card ≤ cap) :
    lookup key k (enterAll key cap l as) = (lookup key k as.reverse).or (lookup key k l) := by
  induction as generalizing l with
  | nil => rfl
  | cons a as ih =>
    obtain ⟨l', h, hl', hroom'⟩ := hl.enter_isSome hroom
    have hrun : enterAll key cap l (a :: as) = enterAll key cap l' as := by
      simp [enterAll, h]
    rw [hrun, ih hl' hroom', reverse_cons, lookup_append, lookup_enter h, lookup_cons, lookup_nil]
    split_ifs <;> cases lookup key k as.reverse <;> rfl

/-- Where entries with one key are equal, the last one with a key is any of them. -/
lemma lookup_reverse_of_agree (hagree : ∀ a ∈ l, ∀ b ∈ l, key a = key b → a = b) :
    lookup key k l.reverse = some a ↔ a ∈ l ∧ key a = k := by
  constructor
  · intro h
    exact ⟨mem_reverse.mp (mem_of_lookup h).1, (mem_of_lookup h).2⟩
  · rintro ⟨ha, rfl⟩
    cases hb : lookup key (key a) l.reverse with
    | none =>
      have := lookup_eq_none.mp hb
      exact absurd (mem_map_of_mem (mem_reverse.mpr ha)) this
    | some b =>
      have hb := mem_of_lookup hb
      rw [hagree b (mem_reverse.mp hb.1) a ha hb.2]

/-- **The order of the entries does not matter**, nor how often they come, if those with one key are
equal. -/
lemma lookup_enterAll_of_agree {as as' : List α} (hl : Keyed key cap l)
    (hroom : ((l ++ as).map key).toFinset.card ≤ cap)
    (hagree : ∀ a ∈ as, ∀ b ∈ as, key a = key b → a = b) (hsame : ∀ a, a ∈ as' ↔ a ∈ as) :
    lookup key k (enterAll key cap l as') = lookup key k (enterAll key cap l as) := by
  have hkeys : ((l ++ as').map key).toFinset = ((l ++ as).map key).toFinset := by
    ext k
    simp [hsame]
  have hagree' : ∀ a ∈ as', ∀ b ∈ as', key a = key b → a = b := fun a ha b hb =>
    hagree a ((hsame a).mp ha) b ((hsame b).mp hb)
  have hlast : lookup key k as'.reverse = lookup key k as.reverse := by
    ext a
    rw [lookup_reverse_of_agree hagree', lookup_reverse_of_agree hagree, hsame]
  rw [lookup_enterAll hl (hkeys ▸ hroom), lookup_enterAll hl hroom, hlast]

/-- **The entries of a table make that table again**, in any order, from every table with no other keys. -/
lemma lookup_enterAll_of_keyed {as : List α} (hl : Keyed key cap l) (hl' : Keyed key cap l')
    (hkeys : ∀ k ∈ l.map key, k ∈ l'.map key) (hsame : ∀ a, a ∈ as ↔ a ∈ l') :
    lookup key k (enterAll key cap l as) = lookup key k l' := by
  have hroom : ((l ++ as).map key).toFinset.card ≤ cap := by
    have hsub : ((l ++ as).map key).toFinset ⊆ (l'.map key).toFinset := by
      intro k hk
      rw [mem_toFinset, map_append, mem_append] at hk
      rw [mem_toFinset]
      rcases hk with hk | hk
      · exact hkeys k hk
      · obtain ⟨a, ha, rfl⟩ := mem_map.mp hk
        exact mem_map_of_mem ((hsame a).mp ha)
    exact (Finset.card_le_card hsub).trans (hl'.length_eq_card ▸ hl'.length_le)
  have hagree : ∀ a ∈ as, ∀ b ∈ as, key a = key b → a = b := fun a ha b hb =>
    inj_on_of_nodup_map hl'.nodup ((hsame a).mp ha) ((hsame b).mp hb)
  have hlast : lookup key k as.reverse = lookup key k l' := by
    ext a
    rw [lookup_reverse_of_agree hagree, lookup_eq_some hl'.nodup, hsame]
  rw [lookup_enterAll hl hroom, hlast]
  cases hk : lookup key k l' with
  | some a => rfl
  | none => exact lookup_eq_none.mpr fun hmem => lookup_eq_none.mp hk (hkeys k hmem)

end Lib
