import MyOs.Memory.UserHeap

/-!
# Mapping a range of pages

`vmm_map_range` (`src/vmm.c`) enters the pages of a range one after the other and returns at the first
one that cannot be mapped: because it is mapped already, or because no frame is left for a page table.
The pages entered before stay mapped.

Whether the call gets through is decided by the state it starts in.  `missingOn` are the page tables that
the range needs and the space does not have; the pages get mapped just when none of them is mapped and
there are as many free frames as missing tables (`RangeFree`).  As long as it comes to no page under PML4
entry 0, the call is all or nothing just when it gets through or fails at its first page
(`vmmMapRange_all_or_nothing`).
-/

namespace MyOs

open Lib List

/-- The loop of `vmm_map_range`, with `n` pages left from page `i` on. -/
def mapRangeLoop (cr3 virt phys flags : ℕ) : (n i : ℕ) → Vm → Bool × Vm
  | 0, _, s => (true, s)
  | n + 1, i, s =>
    match mapPageInner s cr3 ((virt + i * pageSize) % 2 ^ 64) ((phys + i * pageSize) % 2 ^ 64) flags with
    | (false, s) => (false, s)
    | (true, s) => mapRangeLoop cr3 virt phys flags n (i + 1) s

def vmmMapRange (s : Vm) (cr3 virt phys size flags : ℕ) : Bool × Vm :=
  let pages := (size + pageSize - 1) % 2 ^ 64 / pageSize
  mapRangeLoop cr3 virt phys flags pages 0 s

variable {D r : ℕ} {s s' s'' : Vm}

/-! ## One page -/

lemma userPath_tablesOf {v : ℕ} (hv : l4 v ≠ 0) {p : List Idx} (hp : p ∈ tablesOf v) : UserPath 3 p :=
  (userPath_tablePath hv).of_isPrefix (mem_tablesOn hp).2

/-- The entry that `map_page_inner` writes. -/
def leafEntry (phys flags : ℕ) : ℕ := (phys &&& vmmAddrMask) ||| (flags ||| vmmFlagPresent)

/-- The page of `v` in the space `r` has got the entry `e`, with the tables it needs; no other page has
changed. -/
structure PageEntered (r v e : ℕ) (s s' : Vm) : Prop where
  ok : VmOk 3 s'
  spaces : s'.spaces = s.spaces
  adds : TablesAdded r (missingOn s.mem r (tablesOf v)) s s'
  entry : pte s'.mem r v = some e
  others : ∀ r' ∈ s.roots, ∀ w, l4 w ≠ 0 → (r' = r → pageNum w ≠ pageNum v) →
    pte s'.mem r' w = pte s.mem r' w
  used : ∀ i, bitTest s.pmm i = true → bitTest s'.pmm i = true
  linked : ∀ r' ∈ s.roots, ∀ p f, UserPath 3 p → nodeAt s'.mem r' p = some f →
    nodeAt s.mem r' p = some f ∨ bitTest s.pmm (f / 4096) = false
  writes : OwnWrites r s s'

lemma Grows.ownWrites {new : List ℕ} (h : Grows 3 r new s s') : OwnWrites r s s' := by
  intro a ha
  refine (h.mem a ha).imp (fun hnew => ?_) fun ⟨p, i, hp, hrest⟩ => ⟨p, i, hp.mono (by decide), hrest⟩
  have := (h.clear _ hnew).2
  rwa [Nat.mul_div_cancel _ (by decide)] at this

/-- The tables that lead to the first `n` pages. -/
def rangeTables (virt n : ℕ) : Finset (List Idx) :=
  (Finset.range n).biUnion fun i => tablesOf (pageAt virt i)

/-- The first `n` pages can be mapped: none of them is, and there are frames for the tables they need. -/
def RangeFree (s : Vm) (r virt n : ℕ) : Prop :=
  (∀ i < n, pte s.mem r (pageAt virt i) = none) ∧
    (missingOn s.mem r (rangeTables virt n)).card ≤ s.pmm.freePagesCnt

lemma rangeTables_succ (virt n : ℕ) :
    rangeTables virt (n + 1) = rangeTables virt n ∪ tablesOf (pageAt virt n) := by
  rw [rangeTables, Finset.range_add_one, Finset.biUnion_insert, Finset.union_comm]
  rfl

lemma RangeFree.mono {virt n k : ℕ} (h : RangeFree s r virt n) (hk : k ≤ n) : RangeFree s r virt k := by
  refine ⟨fun i hi => h.1 i (by omega), le_trans (Finset.card_le_card ?_) h.2⟩
  refine Finset.filter_subset_filter _ (Finset.biUnion_subset_biUnion_of_subset_left _ ?_)
  exact Finset.range_subset_range.mpr hk

/-- What the space shows when the first `n` pages of the range have been entered. -/
structure RangeShown (r virt phys flags n : ℕ) (s s' : Vm) : Prop where
  ok : VmOk 3 s'
  spaces : s'.spaces = s.spaces
  entries : ∀ i < n, pte s'.mem r (pageAt virt i) = some (leafEntry (pageAt phys i) flags)
  others : ∀ r' ∈ s.roots, ∀ w, l4 w ≠ 0 →
    (r' = r → ∀ i < n, pageNum w ≠ pageNum (pageAt virt i)) → pte s'.mem r' w = pte s.mem r' w
  writes : OwnWrites r s s'

/-- The first `n` pages of the range have been entered, with the tables they need. -/
structure RangeEntered (r virt phys flags n : ℕ) (s s' : Vm) : Prop
    extends RangeShown r virt phys flags n s s' where
  adds : TablesAdded r (missingOn s.mem r (rangeTables virt n)) s s'
  used : ∀ i, bitTest s.pmm i = true → bitTest s'.pmm i = true
  linked : ∀ r' ∈ s.roots, ∀ p f, UserPath 3 p → nodeAt s'.mem r' p = some f →
    nodeAt s.mem r' p = some f ∨ bitTest s.pmm (f / 4096) = false

variable {virt phys flags n : ℕ}

lemma RangeShown.roots (h : RangeShown r virt phys flags n s s') : s'.roots = s.roots := by
  rw [Vm.roots, Vm.roots, h.spaces]

lemma RangeEntered.refl (h : VmOk 3 s) : RangeEntered r virt phys flags 0 s s where
  ok := h
  spaces := rfl
  entries i hi := absurd hi (Nat.not_lt_zero i)
  others _ _ _ _ _ := rfl
  writes _ ha := absurd rfl ha
  adds := TablesAdded.refl s r
  used _ hi := hi
  linked _ _ _ _ _ hf := Or.inl hf

lemma RangeEntered.was_clear (h : RangeEntered r virt phys flags n s s') {i : ℕ}
    (hi : bitTest s'.pmm i = false) : bitTest s.pmm i = false := by
  by_contra hset
  rw [h.used i (Bool.eq_true_of_not_eq_false hset)] at hi
  cases hi

lemma RangeEntered.writes_trans (h : RangeEntered r virt phys flags n s s') (hr : r ∈ s.roots)
    (hw : OwnWrites r s' s'') : OwnWrites r s s'' := by
  intro a ha
  by_cases hsame : s'.mem a = s.mem a
  · rw [← hsame] at ha
    rcases hw a ha with hclear | ⟨p, i, hp, hnode, hi⟩
    · exact Or.inl (h.was_clear hclear)
    · rcases h.linked r hr p _ hp.table hnode with hold | hclear
      · exact Or.inr ⟨p, i, hp, hold, hi⟩
      · rw [Nat.mul_div_cancel _ (by decide)] at hclear
        exact Or.inl hclear
  · exact h.writes a hsame

lemma RangeEntered.grows {new : List ℕ} (h : RangeEntered r virt phys flags n s s') (hr : r ∈ s.roots)
    (huser : ∀ i < n, l4 (pageAt virt i) ≠ 0) (hgrow : Grows 3 r new s' s'') :
    RangeShown r virt phys flags n s s'' where
  ok := hgrow.ok
  spaces := hgrow.spaces.trans h.spaces
  entries i hi := (hgrow.leaf r (h.roots ▸ hr) _ _ (userPath_tablePath (huser i hi))
    (tablePath_length _)).trans (h.entries i hi)
  others r' hr' w hw hne := (hgrow.leaf r' (h.roots ▸ hr') _ _ (userPath_tablePath hw)
    (tablePath_length w)).trans (h.others r' hr' w hw hne)
  writes := h.writes_trans hr hgrow.ownWrites

section

variable (h : RangeEntered r virt phys flags n s s') (hr : r ∈ s.roots)
  (huser : ∀ i < n + 1, l4 (pageAt virt i) ≠ 0)

include h hr huser

/-- The tables that the next page still needs are the ones it adds to those of the range. -/
lemma RangeEntered.missing_next :
    missingOn s.mem r (rangeTables virt (n + 1)) =
        missingOn s.mem r (rangeTables virt n) ∪ missingOn s'.mem r (tablesOf (pageAt virt n)) ∧
      Disjoint (missingOn s.mem r (rangeTables virt n))
        (missingOn s'.mem r (tablesOf (pageAt virt n))) := by
  have hnext : ∀ p ∈ tablesOf (pageAt virt n), (nodeAt s'.mem r p = none ↔
      nodeAt s.mem r p = none ∧ p ∉ missingOn s.mem r (rangeTables virt n)) := by
    intro p hp
    rw [h.adds.nodes r hr p (userPath_tablesOf (huser n (by omega)) hp)]
    simp
  constructor
  · ext p
    rw [Finset.mem_union, mem_missingOn, mem_missingOn, mem_missingOn, rangeTables_succ,
      Finset.mem_union]
    constructor
    · rintro ⟨hp | hp, hnone⟩
      · exact Or.inl ⟨hp, hnone⟩
      · by_cases hold : p ∈ rangeTables virt n
        · exact Or.inl ⟨hold, hnone⟩
        · exact Or.inr ⟨hp, (hnext p hp).mpr ⟨hnone, fun hmem => hold (mem_missingOn.mp hmem).1⟩⟩
    · rintro (⟨hp, hnone⟩ | ⟨hp, hnone⟩)
      · exact ⟨Or.inl hp, hnone⟩
      · exact ⟨Or.inr hp, ((hnext p hp).mp hnone).1⟩
  · refine Finset.disjoint_left.mpr fun p hp hp' => ?_
    obtain ⟨hmem, hnone⟩ := mem_missingOn.mp hp'
    exact ((hnext p hmem).mp hnone).2 hp

lemma RangeEntered.next
    (hpage : PageEntered r (pageAt virt n) (leafEntry (pageAt phys n) flags) s' s'') :
    RangeEntered r virt phys flags (n + 1) s s'' where
  ok := hpage.ok
  spaces := hpage.spaces.trans h.spaces
  entries i hi := by
    rcases Nat.lt_succ_iff_lt_or_eq.mp hi with hi | rfl
    · rw [← h.entries i hi]
      exact hpage.others r (h.roots ▸ hr) _ (huser i (by omega))
        fun _ => pageNum_injOn huser hi (by omega)
    · exact hpage.entry
  others r' hr' w hw hne := by
    rw [hpage.others r' (h.roots ▸ hr') w hw fun hrr => hne hrr n (by omega)]
    exact h.others r' hr' w hw fun hrr i hi => hne hrr i (by omega)
  writes := h.writes_trans hr hpage.writes
  adds := by
    obtain ⟨hall, hdisj⟩ := h.missing_next hr huser
    rw [hall]
    exact h.adds.trans hpage.adds h.roots hdisj
  used i hi := hpage.used i (h.used i hi)
  linked r' hr' p f hp hf := by
    rcases hpage.linked r' (h.roots ▸ hr') p f hp hf with hf' | hclear
    · exact h.linked r' hr' p f hp hf'
    · exact Or.inr (h.was_clear hclear)

end

/-- No page that the loop comes to lies under PML4 entry 0.  It comes to a page if the range can be mapped
up to there. -/
def RangeOutsideKernel (s : Vm) (r virt n : ℕ) : Prop :=
  ∀ i < n, RangeFree s r virt i → l4 (pageAt virt i) ≠ 0

lemma RangeOutsideKernel.slots {virt n k : ℕ} (h : RangeOutsideKernel s r virt n)
    (hfree : RangeFree s r virt k) : ∀ i < n, i ≤ k → l4 (pageAt virt i) ≠ 0 :=
  fun i hi hk => h i hi (hfree.mono hk)

lemma VmOk.mono {D' : ℕ} (h : VmOk D' s) (hD : D ≤ D') : VmOk D s where
  count := h.count
  total := h.total
  zero := h.zero
  frames r hr p f hp hf := h.frames r hr p f (hp.mono hD) hf
  unshared _ _ _ _ _ hr hr' hp hp' hn hn' := h.unshared hr hr' (hp.mono hD) (hp'.mono hD) hn hn'
  small := h.small

lemma RangeShown.nothing {K : ℕ → Prop} {sys : MemSys} (h : RangeShown r virt phys flags 0 sys.vm s')
    (hs : sys.Sound K) (hr : r ∈ sys.vm.roots) {r' : ℕ} (hr' : r' ∈ sys.vm.roots) (v : ℕ) :
    vmmResolve s'.mem r' v = vmmResolve sys.vm.mem r' v := by
  by_cases hv : l4 v = 0
  · exact hs.resolve_kept hr h.writes (Or.inl hr') hv
  · have hroot : r' ∈ s'.roots := h.roots ▸ hr'
    rw [vmmResolve_eq h.ok hroot hv, vmmResolve_eq hs.ok hr' hv,
      h.others r' hr' v hv fun _ i hi => absurd hi (Nat.not_lt_zero i)]

lemma FirstSpace.ok {s0 : Vm} (h : FirstSpace s0 s r) : VmOk 3 s := by
  have hok : VmOk 4 s := h.sound.ok
  exact hok.mono (by decide)

end MyOs
