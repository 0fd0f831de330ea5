import Mathlib.Tactic

/-!
# Trees of tables in a store

A store of tables is given by `next : N → I → Option N`: entry `i` of table `n` points to
`next n i`, or to nothing.  `walk` follows a path of entries from a root.

The invariant of a forest is `Unshared`: over all its roots and all the paths `ok` allows, no
table is reached twice.  Under it a change of one entry changes exactly the paths through that
entry: `walk_relink` covers an entry with nothing below it, and `walk_congr` changes elsewhere.

`reach` lists the tables below a table, in the order in which a recursive teardown meets them.
-/

namespace Lib

open List

variable {N I : Type*} {next next' : N → I → Option N} {roots : Set N} {ok : List I → Prop}

/-- The table at the end of a path. -/
def walk (next : N → I → Option N) : N → List I → Option N
  | r, [] => some r
  | r, i :: p => (next r i).bind fun n => walk next n p

@[simp] lemma walk_nil (next : N → I → Option N) (r : N) : walk next r [] = some r := rfl

lemma walk_cons (next : N → I → Option N) (r : N) (i : I) (p : List I) :
    walk next r (i :: p) = (next r i).bind fun n => walk next n p := rfl

lemma walk_append (next : N → I → Option N) :
    ∀ (p q : List I) (r : N), walk next r (p ++ q) = (walk next r p).bind fun n => walk next n q
  | [], _, _ => rfl
  | i :: p, q, r => by
      rw [cons_append, walk_cons, walk_cons]
      cases hn : next r i with
      | none => rfl
      | some n => exact walk_append next p q n

lemma walk_snoc (next : N → I → Option N) (p : List I) (i : I) (r : N) :
    walk next r (p ++ [i]) = (walk next r p).bind fun n => next n i := by
  rw [walk_append]
  cases walk next r p with
  | none => rfl
  | some n =>
    show walk next n [i] = next n i
    rw [walk_cons]
    cases next n i <;> rfl

lemma walk_congr {r : N} :
    ∀ {p : List I}, (∀ q i, q ++ [i] <+: p → ∀ n, walk next r q = some n → next' n i = next n i) →
      walk next' r p = walk next r p := by
  intro p
  induction p using reverseRecOn with
  | nil => intro _; rfl
  | append_singleton p i ih =>
    intro h
    have hp : walk next' r p = walk next r p :=
      ih fun q j hq => h q j (hq.trans (prefix_append p [i]))
    rw [walk_snoc, walk_snoc, hp]
    cases hn : walk next r p with
    | none => rfl
    | some n => exact h p i prefix_rfl n hn

/-- No table is reached from two roots, or by two paths. -/
def Unshared (next : N → I → Option N) (roots : Set N) (ok : List I → Prop) : Prop :=
  ∀ ⦃r r' p p' n⦄, r ∈ roots → r' ∈ roots → ok p → ok p' →
    walk next r p = some n → walk next r' p' = some n → r = r' ∧ p = p'

/-- The path `q` from `r0` leads to `x` now, and every other path leads where it led. -/
def Relinked (next next' : N → I → Option N) (roots : Set N) (ok : List I → Prop) (r0 : N) (q : List I)
    (x : Option N) : Prop :=
  ∀ r ∈ roots, ∀ p, ok p → (r = r0 ∧ p = q → walk next' r p = x) ∧
    (¬ (r = r0 ∧ p = q) → walk next' r p = walk next r p)

section Entry

variable {r0 a : N} {q : List I} {j : I}

lemma Relinked.cases {x : Option N} (h : Relinked next next' roots ok r0 q x) {r n : N} (hr : r ∈ roots)
    {p : List I} (hp : ok p) (hn : walk next' r p = some n) :
    walk next r p = some n ∨ (r = r0 ∧ p = q ∧ x = some n) := by
  by_cases hq : r = r0 ∧ p = q
  · exact Or.inr ⟨hq.1, hq.2, ((h r hr p hp).1 hq).symm.trans hn⟩
  · exact Or.inl (((h r hr p hp).2 hq).symm.trans hn)

/-- Where no path led before, nothing is shared. -/
theorem Unshared.relink (hun : Unshared next roots ok) {x : Option N}
    (hfresh : ∀ f ∈ x, ∀ r ∈ roots, ∀ p, ok p → walk next r p ≠ some f)
    (h : Relinked next next' roots ok r0 q x) : Unshared next' roots ok := by
  intro r r' p p' n hr hr' hp hp' hn hn'
  rcases h.cases hr hp hn with hold | ⟨rfl, rfl, hx⟩
  · rcases h.cases hr' hp' hn' with hold' | ⟨rfl, rfl, hx⟩
    · exact hun hr hr' hp hp' hold hold'
    · exact absurd hold (hfresh n hx r hr p hp)
  · rcases h.cases hr' hp' hn' with hold' | ⟨rfl, rfl, -⟩
    · exact absurd hold' (hfresh n hx r' hr' p' hp')
    · exact ⟨rfl, rfl⟩

variable (hclosed : ∀ p i, ok (p ++ [i]) → ok p)

include hclosed in
lemma ok_of_append {p t : List I} (h : ok (p ++ t)) : ok p := by
  induction t using reverseRecOn with
  | nil => rwa [append_nil] at h
  | append_singleton t i ih => exact ih (hclosed _ i (append_assoc p t [i] ▸ h))

variable (hun : Unshared next roots ok) (hr0 : r0 ∈ roots) (hq : ok (q ++ [j]))
  (ha : walk next r0 q = some a)
  (hnext : ∀ r ∈ roots, ∀ p i n, ok (p ++ [i]) → walk next r p = some n → (n ≠ a ∨ i ≠ j) →
    next' n i = next n i)
include hclosed hun hr0 hq ha hnext

/-- If entry `j` of the table at `q` is the only one that changes, so do only the paths through it. -/
lemma walk_apart {r : N} (hr : r ∈ roots) {p : List I} (hp : ok p) (h : ¬ (r = r0 ∧ q ++ [j] <+: p)) :
    walk next' r p = walk next r p := by
  refine walk_congr fun p' i hi n hn => ?_
  obtain ⟨t, rfl⟩ := hi
  have hok : ok (p' ++ [i]) := ok_of_append hclosed hp
  refine hnext r hr p' i n hok hn (not_and_or.mp ?_)
  rintro ⟨rfl, rfl⟩
  obtain ⟨rfl, rfl⟩ := hun hr hr0 (hclosed p' i hok) (hclosed q i hq) hn ha
  exact h ⟨rfl, prefix_append _ _⟩

/-- **Writing an entry.**  If entry `j` of the table at `q` is written, and there was and is nothing below
the table it points to, then the path to that table is the only one that changes. -/
theorem walk_relink
    (hleaf : ∀ i, ok (q ++ [j] ++ [i]) →
      ((next a j).bind fun n => next n i) = none ∧ ((next' a j).bind fun n => next' n i) = none) :
    Relinked next next' roots ok r0 (q ++ [j]) (next' a j) := by
  have hnot : ¬ q ++ [j] <+: q := fun h => absurd h.length_le (by simp)
  have ha' : walk next' r0 q = some a :=
    (walk_apart hclosed hun hr0 hq ha hnext hr0 (hclosed q j hq) fun h => hnot h.2).trans ha
  intro r hr p hp
  constructor
  · rintro ⟨rfl, rfl⟩
    rw [walk_snoc, ha', Option.bind_some]
  · intro h
    by_cases hthrough : r = r0 ∧ q ++ [j] <+: p
    · obtain ⟨rfl, t, rfl⟩ := hthrough
      cases t with
      | nil => exact absurd ⟨rfl, append_nil _⟩ h
      | cons i t =>
        have hi : ok (q ++ [j] ++ [i]) :=
          ok_of_append hclosed (t := t) (by rwa [append_assoc _ [i] t])
        obtain ⟨hold, hnew⟩ := hleaf i hi
        rw [walk_append next' (q ++ [j]), walk_append next (q ++ [j]), walk_snoc, walk_snoc, ha, ha',
          Option.bind_some, Option.bind_some]
        simp only [walk_cons, ← Option.bind_assoc, hold, hnew, Option.bind_none]
    · exact walk_apart hclosed hun hr0 hq ha hnext hr hp hthrough

end Entry

/-- If every path that leads somewhere led there before, nothing is shared. -/
theorem Unshared.mono (hun : Unshared next roots ok) {roots' : Set N} (hroots : roots' ⊆ roots)
    (hwalk : ∀ r ∈ roots', ∀ p n, ok p → walk next' r p = some n → walk next r p = some n) :
    Unshared next' roots' ok :=
  fun _ _ _ _ _ hr hr' hp hp' hn hn' =>
    hun (hroots hr) (hroots hr') hp hp' (hwalk _ hr _ _ hp hn) (hwalk _ hr' _ _ hp' hn')

/-! ## Listing the tables below a table -/

/-- The tables below `n` through the entries `idx`, those below each entry listed by `sub`, and
then `n` itself. -/
def gather (next : N → I → Option N) (sub : N → List N) (idx : List I) (n : N) : List N :=
  (idx.flatMap fun i => ((next n i).map sub).getD []) ++ [n]

/-- The tables at most `d` entries below a table. -/
def reach (next : N → I → Option N) (idx : List I) : ℕ → N → List N
  | 0 => fun n => [n]
  | d + 1 => gather next (reach next idx d) idx

lemma mem_gather {sub : N → List N} {idx : List I} {n f : N} :
    f ∈ gather next sub idx n ↔ f = n ∨ ∃ i ∈ idx, ∃ c, next n i = some c ∧ f ∈ sub c := by
  rw [gather, mem_append, mem_singleton, mem_flatMap, or_comm]
  refine or_congr_right (exists_congr fun i => and_congr_right fun _ => ?_)
  cases next n i with
  | none => simp
  | some c => simp

/-- The listed tables are those that paths lead to. -/
theorem mem_reach {idx : List I} :
    ∀ {d : ℕ} {n f : N}, f ∈ reach next idx d n ↔
      ∃ p, p.length ≤ d ∧ (∀ i ∈ p, i ∈ idx) ∧ walk next n p = some f
  | 0, n, f => by
      rw [reach, mem_singleton]
      constructor
      · rintro rfl
        exact ⟨[], le_refl 0, by simp, rfl⟩
      · rintro ⟨p, hp, _, hw⟩
        rw [length_eq_zero_iff.mp (Nat.le_zero.mp hp)] at hw
        exact (Option.some.inj hw).symm
  | d + 1, n, f => by
      rw [reach, mem_gather]
      constructor
      · rintro (rfl | ⟨i, hi, c, hc, hf⟩)
        · exact ⟨[], Nat.zero_le _, by simp, rfl⟩
        · obtain ⟨p, hp, hidx, hw⟩ := mem_reach.mp hf
          refine ⟨i :: p, Nat.succ_le_succ hp, forall_mem_cons.mpr ⟨hi, hidx⟩, ?_⟩
          rw [walk_cons, hc]
          exact hw
      · rintro ⟨p, hp, hidx, hw⟩
        cases p with
        | nil => exact Or.inl (Option.some.inj hw).symm
        | cons i p =>
          rw [walk_cons] at hw
          obtain ⟨c, hc, hw⟩ := Option.bind_eq_some_iff.mp hw
          exact Or.inr ⟨i, hidx i (by simp), c, hc,
            mem_reach.mpr ⟨p, Nat.le_of_succ_le_succ hp, fun j hj => hidx j (by simp [hj]), hw⟩⟩

lemma nodup_gather {sub : N → List N} {idx : List I} {n : N} (hidx : idx.Nodup)
    (hsub : ∀ i ∈ idx, ∀ c, next n i = some c → (sub c).Nodup ∧ n ∉ sub c)
    (hdisj : ∀ i ∈ idx, ∀ j ∈ idx, i ≠ j → ∀ c c', next n i = some c → next n j = some c' →
      List.Disjoint (sub c) (sub c')) :
    (gather next sub idx n).Nodup := by
  have hmem : ∀ {i f}, f ∈ ((next n i).map sub).getD [] → ∃ c, next n i = some c ∧ f ∈ sub c := by
    intro i f hf
    cases hc : next n i with
    | none => simp [hc] at hf
    | some c => exact ⟨c, rfl, by simpa [hc] using hf⟩
  rw [gather, nodup_append]
  refine ⟨nodup_flatMap.mpr ⟨fun i hi => ?_, ?_⟩, nodup_singleton n, ?_⟩
  · cases hc : next n i with
    | none => simp
    | some c => simpa using (hsub i hi c hc).1
  · refine hidx.imp_of_mem fun {i j} hi hj hij f hf hf' => ?_
    obtain ⟨c, hc, hfc⟩ := hmem hf
    obtain ⟨c', hc', hfc'⟩ := hmem hf'
    exact hdisj i hi j hj hij c c' hc hc' hfc hfc'
  · intro f hf g hg heq
    rw [mem_singleton] at hg
    obtain ⟨i, hi, hf⟩ := mem_flatMap.mp hf
    obtain ⟨c, hc, hfc⟩ := hmem hf
    exact (hsub i hi c hc).2 (hg ▸ heq ▸ hfc)

lemma nodup_reach {idx : List I} (hidx : idx.Nodup) :
    ∀ {d : ℕ} {n : N}, (∀ p p' f, p.length ≤ d → p'.length ≤ d → walk next n p = some f →
      walk next n p' = some f → p = p') → (reach next idx d n).Nodup
  | 0, n, _ => nodup_singleton n
  | d + 1, n, h => by
      -- a path from a child is a path from `n` with one more entry in front
      have hpath : ∀ {i c f}, next n i = some c → f ∈ reach next idx d c →
          ∃ p, p.length ≤ d ∧ walk next n (i :: p) = some f := by
        intro i c f hc hf
        obtain ⟨p, hp, _, hw⟩ := mem_reach.mp hf
        exact ⟨p, hp, by rw [walk_cons, hc]; exact hw⟩
      refine nodup_gather hidx (fun i _ c hc => ⟨nodup_reach hidx ?_, fun hn => ?_⟩) ?_
      · intro p p' f hp hp' hw hw'
        have hcons := h (i :: p) (i :: p') f (Nat.succ_le_succ hp) (Nat.succ_le_succ hp')
          (by rw [walk_cons, hc]; exact hw) (by rw [walk_cons, hc]; exact hw')
        exact tail_eq_of_cons_eq hcons
      · obtain ⟨p, hp, hw⟩ := hpath hc hn
        exact absurd (h (i :: p) [] n (Nat.succ_le_succ hp) (Nat.zero_le _) hw rfl) (by simp)
      · intro i _ j _ hij c c' hc hc' f hf hf'
        obtain ⟨p, hp, hw⟩ := hpath hc hf
        obtain ⟨p', hp', hw'⟩ := hpath hc' hf'
        exact hij (head_eq_of_cons_eq
          (h (i :: p) (j :: p') f (Nat.succ_le_succ hp) (Nat.succ_le_succ hp') hw hw'))

lemma reach_congr {idx : List I} :
    ∀ {d : ℕ} {n : N}, (∀ f ∈ reach next idx d n, ∀ i, next' f i = next f i) →
      reach next' idx d n = reach next idx d n
  | 0, _, _ => rfl
  | d + 1, n, h => by
      have hn : ∀ i, next' n i = next n i := h n (mem_gather.mpr (Or.inl rfl))
      rw [reach, reach, gather, gather]
      refine congrArg (· ++ [n]) (flatMap_congr fun i hi => ?_)
      rw [hn i]
      cases hc : next n i with
      | none => rfl
      | some c =>
        exact reach_congr fun f hf => h f (mem_gather.mpr (Or.inr ⟨i, hi, c, hc, hf⟩))

end Lib
