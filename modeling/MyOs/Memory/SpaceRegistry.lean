import MyOs.Memory.Vmm

/-!
# The registry of user spaces

`g_user_spaces` (`src/vmm.c`) is a table of slots that is searched for a PML4 or for a free slot.
What it stands for is a map from PML4s to reference counts, `refsOf`.  A PML4 has at most one slot
in use (`OneSlot`), and the three operations act on the map as one would expect
(`registerSpace_spec`, `retainSpace_spec`, `releaseSpace_spec`).
-/

namespace MyOs

open List Function

/-- The number of references to `cr3` that the slots record. -/
def refsOf (spaces : List UserSpace) (cr3 : ℕ) : ℕ :=
  (spaces.map fun e => if e.cr3 = cr3 then e.refs else 0).sum

/-- No PML4 has two slots in use. -/
def OneSlot (spaces : List UserSpace) : Prop :=
  spaces.Pairwise fun e e' => e.cr3 = e'.cr3 → e.refs = 0 ∨ e'.refs = 0

variable {spaces spaces' l₁ l₂ : List UserSpace} {e e' : UserSpace} {c : ℕ}

@[simp] lemma refsOf_nil (c : ℕ) : refsOf [] c = 0 := rfl

@[simp] lemma refsOf_cons (e : UserSpace) (l : List UserSpace) (c : ℕ) :
    refsOf (e :: l) c = (if e.cr3 = c then e.refs else 0) + refsOf l c := by
  simp [refsOf]

@[simp] lemma refsOf_append (l₁ l₂ : List UserSpace) (c : ℕ) :
    refsOf (l₁ ++ l₂) c = refsOf l₁ c + refsOf l₂ c := by
  simp [refsOf]

lemma refsOf_eq_zero : refsOf spaces c = 0 ↔ ∀ e ∈ spaces, e.cr3 = c → e.refs = 0 := by
  induction spaces with
  | nil => simp
  | cons e l ih => simp [ih]

lemma OneSlot.refsOf_others (h : OneSlot (l₁ ++ e :: l₂)) (he : e.refs ≠ 0) :
    refsOf l₁ e.cr3 = 0 ∧ refsOf l₂ e.cr3 = 0 := by
  obtain ⟨_, h2, hcross⟩ := pairwise_append.mp h
  refine ⟨refsOf_eq_zero.mpr fun x hx hcr3 => ?_, refsOf_eq_zero.mpr fun x hx hcr3 => ?_⟩
  · exact (hcross x hx e (by simp) hcr3).resolve_right he
  · exact ((pairwise_cons.mp h2).1 x hx hcr3.symm).resolve_left he

lemma OneSlot.replace (h : OneSlot (l₁ ++ e :: l₂))
    (h' : e'.refs ≠ 0 → refsOf l₁ e'.cr3 = 0 ∧ refsOf l₂ e'.cr3 = 0) :
    OneSlot (l₁ ++ e' :: l₂) := by
  obtain ⟨h1, h2, hcross⟩ := pairwise_append.mp h
  refine pairwise_append.mpr ⟨h1, pairwise_cons.mpr ⟨fun x hx hcr3 => ?_,
    (pairwise_cons.mp h2).2⟩, ?_⟩
  · by_cases he' : e'.refs = 0
    · exact Or.inl he'
    · exact Or.inr (refsOf_eq_zero.mp (h' he').2 x hx hcr3.symm)
  · intro x hx y hy hcr3
    rcases mem_cons.mp hy with rfl | hy
    · by_cases hy0 : y.refs = 0
      · exact Or.inr hy0
      · exact Or.inl (refsOf_eq_zero.mp (h' hy0).1 x hx hcr3)
    · exact hcross x hx y (mem_cons_of_mem _ hy) hcr3

lemma split_of_findIdx {p : UserSpace → Bool} {slot : ℕ} (h : spaces.findIdx? p = some slot) :
    ∃ l₁ e l₂, spaces = l₁ ++ e :: l₂ ∧ l₁.length = slot ∧ p e = true := by
  obtain ⟨hlt, hp, _⟩ := findIdx?_eq_some_iff_getElem.mp h
  refine ⟨spaces.take slot, spaces[slot], spaces.drop (slot + 1), ?_, ?_, hp⟩
  · rw [← drop_eq_getElem_cons hlt, take_append_drop]
  · simp [length_take, hlt.le]

lemma split_of_refsOf (h : refsOf spaces c ≠ 0) :
    ∃ l₁ e l₂, spaces = l₁ ++ e :: l₂ ∧ findSpaceSlot spaces c = some l₁.length ∧ e.cr3 = c ∧
      e.refs ≠ 0 := by
  cases hslot : findSpaceSlot spaces c with
  | none =>
    refine absurd (refsOf_eq_zero.mpr fun e he hcr3 => ?_) h
    have := findIdx?_eq_none_iff.mp hslot e he
    simpa [hcr3] using this
  | some slot =>
    obtain ⟨l₁, e, l₂, hsplit, hlen, hp⟩ := split_of_findIdx hslot
    obtain ⟨hcr3, hrefs⟩ := of_decide_eq_true hp
    exact ⟨l₁, e, l₂, hsplit, by rw [hlen], hcr3, hrefs⟩

lemma findSpaceSlot_eq_none (h : refsOf spaces c = 0) : findSpaceSlot spaces c = none := by
  refine findIdx?_eq_none_iff.mpr fun e he => ?_
  have := refsOf_eq_zero.mp h e he
  simpa using this

lemma OneSlot.recount (h : OneSlot (l₁ ++ e :: l₂)) (he : e.refs ≠ 0) (n : ℕ) :
    OneSlot (l₁ ++ { e with refs := n } :: l₂) ∧
      refsOf (l₁ ++ { e with refs := n } :: l₂) =
        update (refsOf (l₁ ++ e :: l₂)) e.cr3 n := by
  obtain ⟨h1, h2⟩ := h.refsOf_others he
  refine ⟨h.replace fun _ => ⟨h1, h2⟩, funext fun x => ?_⟩
  by_cases hx : x = e.cr3
  · subst hx
    simp [h1, h2]
  · simp [update_of_ne hx, Ne.symm hx]

/-- **Registering** a PML4 that has no slot gives it one reference. -/
theorem registerSpace_spec (h : OneSlot spaces) (hc : refsOf spaces c = 0)
    (hreg : registerSpace spaces c = some spaces') :
    OneSlot spaces' ∧ refsOf spaces' = update (refsOf spaces) c 1 := by
  rw [registerSpace, Option.map_eq_some_iff] at hreg
  obtain ⟨slot, hslot, rfl⟩ := hreg
  obtain ⟨l₁, e, l₂, rfl, rfl, hp⟩ := split_of_findIdx hslot
  have he : e.refs = 0 := of_decide_eq_true hp
  have hset : (l₁ ++ e :: l₂).set l₁.length { cr3 := c, refs := 1 } =
      l₁ ++ { cr3 := c, refs := 1 } :: l₂ := by simp
  simp only [refsOf_append, refsOf_cons, Nat.add_eq_zero_iff] at hc
  rw [hset]
  refine ⟨h.replace fun _ => ⟨hc.1, hc.2.2⟩, funext fun x => ?_⟩
  by_cases hx : x = c
  · subst hx
    simp [hc.1, hc.2.2]
  · simp [update_of_ne hx, Ne.symm hx, he]

/-- **Retaining** a registered PML4 adds a reference, while the 32-bit count does not wrap. -/
theorem retainSpace_spec (h : OneSlot spaces) (hc : refsOf spaces c ≠ 0)
    (hwrap : refsOf spaces c + 1 < 2 ^ 32) :
    OneSlot (retainSpace spaces c) ∧
      refsOf (retainSpace spaces c) = update (refsOf spaces) c (refsOf spaces c + 1) := by
  obtain ⟨l₁, e, l₂, rfl, hslot, rfl, hrefs⟩ := split_of_refsOf hc
  obtain ⟨h1, h2⟩ := h.refsOf_others hrefs
  have hcount : refsOf (l₁ ++ e :: l₂) e.cr3 = e.refs := by simp [h1, h2]
  have hmod : retainSpace (l₁ ++ e :: l₂) e.cr3 = l₁ ++ { e with refs := e.refs + 1 } :: l₂ := by
    rw [hcount] at hwrap
    simp only [retainSpace, hslot]
    simp [modify_eq_set_getElem?]
    omega
  rw [hmod, hcount]
  exact h.recount hrefs _

/-- **Releasing** a registered PML4 drops a reference; the space is to be destroyed if it was the
last one. -/
theorem releaseSpace_spec (h : OneSlot spaces) (hc : refsOf spaces c ≠ 0) :
    (releaseSpace spaces c).1 = decide (refsOf spaces c = 1) ∧
      OneSlot (releaseSpace spaces c).2 ∧
      refsOf (releaseSpace spaces c).2 =
        update (refsOf spaces) c (refsOf spaces c - 1) := by
  obtain ⟨l₁, e, l₂, rfl, hslot, rfl, hrefs⟩ := split_of_refsOf hc
  obtain ⟨h1, h2⟩ := h.refsOf_others hrefs
  have hcount : refsOf (l₁ ++ e :: l₂) e.cr3 = e.refs := by simp [h1, h2]
  have hget : (l₁ ++ e :: l₂)[l₁.length]? = some e := by simp
  rw [hcount]
  simp only [releaseSpace, hslot, hget]
  by_cases hone : e.refs = 1
  · simp only [hone, if_true, decide_true, true_and, set_append_right _ _ (le_refl _),
      Nat.sub_self, set_cons_zero]
    refine ⟨h.replace fun h' => absurd rfl h', funext fun x => ?_⟩
    by_cases hx : x = e.cr3
    · subst hx
      simp [h1, h2]
    · simp [update_of_ne hx, Ne.symm hx]
  · simp only [hone, if_false, decide_false, true_and, set_append_right _ _ (le_refl _),
      Nat.sub_self, set_cons_zero]
    exact h.recount hrefs _

lemma releaseSpace_of_unregistered (h : refsOf spaces c = 0) :
    releaseSpace spaces c = (false, spaces) := by
  simp only [releaseSpace, findSpaceSlot_eq_none h]

end MyOs
