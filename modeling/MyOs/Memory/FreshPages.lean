import MyOs.Memory.AddressSpaces

/-!
# Pages mapped to frames of their own

Everything in the kernel that gives memory to a user space does it page by page in the same way: a
frame is allocated, filled, and mapped, and it is freed again if the mapping fails
(`mapFreshPage`).  Memory is taken back by unmapping a page and freeing the frame
(`unmapFreePage`).  Spaces that are changed only in this way own their frames: the invariant
`VmOk 4`, under which no frame is mapped twice or is a table, is kept.
-/

namespace MyOs

open Lib List

/-- Allocate a frame, fill it and map it; if it cannot be mapped, free it. -/
def mapFreshPage (content : ℕ → UInt8) (s : Vm) (cr3 virt flags : ℕ) : Bool × Vm :=
  let r := s.allocPage
  if r.1 = 0 then (false, r.2)
  else
    let s := { r.2 with mem := overlay r.2.mem r.1 pageSize content }
    match vmmMapPage s cr3 virt r.1 flags with
    | (true, s) => (true, s)
    | (false, s) => (false, { s with pmm := pmmFreePages s.pmm r.1 1 })

/-- Unmap a page and free the frame it was mapped to. -/
def unmapFreePage (s : Vm) (cr3 virt : ℕ) : Vm :=
  let r := vmmUnmapPage s cr3 virt
  freeFrames r.1 1 r.2

variable {r : ℕ} {new : List ℕ} {s s' : Vm}
variable {q : List Idx} {i : Idx} {e f t v : ℕ} {content : ℕ → UInt8} {s1 : Vm}

/-! ## Entries of pages, with the frames they own -/

lemma nodeAt_of_leafAt {m : Memory} (h : leafAt m r q i = some e) :
    nodeAt m r (q ++ [i]) = some (e &&& vmmAddrMask) := by
  cases hn : nodeAt m r q with
  | none =>
    rw [leafAt_of_none hn] at h
    exact absurd h (by simp)
  | some t =>
    rw [leafAt_of_some hn] at h
    by_cases hp : readEntry m t i &&& vmmFlagPresent = 0
    · rw [if_pos hp] at h
      exact absurd h (by simp)
    · rw [if_neg hp, Option.some.injEq] at h
      rw [nodeAt_snoc hn, tableChild_of_present hp, h]

lemma UserPath.snoc (hq : UserPath 3 q) (hlen : q.length = 3) (i : Idx) : UserPath 4 (q ++ [i]) := by
  refine ⟨by rw [length_append, hlen]; rfl, ?_⟩
  cases q with
  | nil => exact absurd hlen (by simp)
  | cons j q => exact hq.2

lemma UserPath.table (hq : UserPath 4 (q ++ [i])) : UserPath 3 q := by
  refine ⟨?_, (hq.closed q i).2⟩
  have := hq.1
  rw [length_append, length_singleton] at this
  omega

section

variable (h : VmOk 4 s) (hr : r ∈ s.roots) (hq : UserPath 3 q) (hlen : q.length = 3)
  (ht : nodeAt s.mem r q = some t)
include h hr hq hlen ht

lemma VmOk.nodeSet_writeLeaf (e : ℕ) (hs' : s' = { s with mem := writeEntry s.mem t i e }) :
    NodeSet 4 r (q ++ [i]) (tableChild s'.mem t i) s s' := by
  obtain ⟨_, hold⟩ := h.writeLeaf (by decide) hr (i := i) hq hlen ht e
  have hmem : s'.mem = writeEntry s.mem t i e := by rw [hs']
  refine walk_relink UserPath.closed h.unshared hr (hq.snoc hlen i) ht ?_ fun j hj => ?_
  · intro r' hr' p j n hp hn hne
    refine tableChild_congr ?_
    rw [hmem]
    refine hold r' hr' p j n (hp.closed p j) hn ?_
    rintro ⟨rfl, rfl, rfl⟩
    rcases hne with hne | hne
    · exact hne (Option.some.inj (hn.symm.trans ht))
    · exact hne rfl
  · have := hj.1
    simp only [length_append, hlen, length_singleton] at this
    omega

/-- **Mapping a frame nobody has.** -/
theorem VmOk.linkLeaf (hf : FrameOk s.pmm f)
    (hfresh : ∀ r' ∈ s.roots, ∀ p, UserPath 4 p → nodeAt s.mem r' p ≠ some f)
    (hpresent : e % 2 ^ 64 &&& vmmFlagPresent ≠ 0) (haddr : e % 2 ^ 64 &&& vmmAddrMask = f)
    (hs' : s' = { s with mem := writeEntry s.mem t i e }) :
    VmOk 4 s' ∧ NodeSet 4 r (q ++ [i]) (some f) s s' := by
  have hlink : tableChild s'.mem t i = some f := by
    rw [hs', tableChild, readEntry_writeEntry, if_neg hpresent, haddr]
  have hwalk := hlink ▸ h.nodeSet_writeLeaf hr hq hlen ht e hs'
  refine ⟨h.writeLeaf_of_frames hr hq hlen ht e (by decide) hs' ?_ ?_, hwalk⟩
  · intro r' hr' p n hp hn
    rcases hwalk.cases hr' hp hn with hn | ⟨_, _, ⟨⟩⟩
    · exact h.frames r' hr' p n hp hn
    · exact hf
  · exact h.unshared.relink (by rintro _ ⟨⟩; exact hfresh) hwalk

/-- **Unmapping a frame.** -/
theorem VmOk.cutLeaf (hs' : s' = { s with mem := writeEntry s.mem t i 0 }) :
    VmOk 4 s' ∧ NodeSet 4 r (q ++ [i]) none s s' := by
  have hcut : tableChild s'.mem t i = none := by
    rw [hs', tableChild, readEntry_writeEntry, if_pos (by decide)]
  have hwalk := hcut ▸ h.nodeSet_writeLeaf hr hq hlen ht 0 hs'
  refine ⟨h.writeLeaf_of_frames hr hq hlen ht 0 (by decide) hs' ?_ ?_, hwalk⟩
  · intro r' hr' p n hp hn
    rcases hwalk.cases hr' hp hn with hn | ⟨_, _, ⟨⟩⟩
    exact h.frames r' hr' p n hp hn
  · exact h.unshared.relink (by rintro _ ⟨⟩) hwalk

end

/-! ## Mapping a fresh frame -/

/-- The state between the allocation of a frame and its mapping: the frame is allocated and filled,
and no path leads to it. -/
structure Pending (s : Vm) (f : ℕ) (content : ℕ → UInt8) (s' : Vm) : Prop where
  handed : Handed s.pmm f s'.pmm
  spaces : s'.spaces = s.spaces
  kernel : s'.kernelCr3 = s.kernelCr3
  log : s'.handed = f :: s.handed
  mem : s'.mem = overlay s.mem f pageSize content

section

variable (hp : Pending s f content s')
include hp

lemma Pending.roots : s'.roots = s.roots := by
  rw [Vm.roots, Vm.roots, hp.spaces]

lemma Pending.outside {a : ℕ} (ha : a / 4096 ≠ f / 4096) : s'.mem a = s.mem a := by
  have := hp.handed.aligned
  rw [hp.mem]
  refine overlay_outside ?_
  simp only [pageSize]
  omega

lemma Pending.sameTables (h : VmOk 4 s) : SameTables s s' := by
  refine h.sameTables (by decide) fun r hr p t hq ht a ha => hp.outside ?_
  rw [ha]
  exact used_ne_clear (h.frames r hr p t (hq.mono (by decide)) ht).used hp.handed.clear

lemma Pending.used {i : ℕ} (hi : bitTest s.pmm i = true) : bitTest s'.pmm i = true := hp.handed.used hi

lemma Pending.vmOk (h : VmOk 4 s) : VmOk 4 s' := by
  have hf := hp.handed
  refine h.of_sameTables (by decide) (le_refl 4) (hp.sameTables h) hp.roots.le (hf.count h.count)
    (hf.total.trans h.total) (hp.used h.zero) fun r hr p n hq hn => hp.used ?_
  exact (h.frames r (hp.roots ▸ hr) p n hq hn).used

lemma Pending.nodeAt_eq (h : VmOk 4 s) {r : ℕ} (hr : r ∈ s.roots) {p : List Idx} (hq : UserPath 4 p) :
    nodeAt s'.mem r p = nodeAt s.mem r p :=
  nodeAt_of_agree (hp.sameTables h r hr) hq

lemma Pending.ne (h : VmOk 4 s) (hg : Grows 4 r new s' s1) :
    ∀ r' ∈ s1.roots, ∀ p, UserPath 4 p → nodeAt s1.mem r' p ≠ some f := by
  intro r' hr' p hq hn
  rw [hg.roots] at hr'
  rcases hg.linked r' hr' p f hq hn with hold | ⟨_, hnew⟩
  · rw [hp.roots] at hr'
    rw [hp.nodeAt_eq h hr' hq] at hold
    exact h.ne_of_clear hp.handed.clear r' hr' p hq hold
  · have hclear := (hg.clear f hnew).2
    rw [hp.handed.bits] at hclear
    simp at hclear

/-- What the tables added while the frame is pending say about the state before. -/
lemma Pending.extends {s2 : Vm} (h : VmOk 4 s) (hr : r ∈ s.roots) (hg : Grows 4 r new s' s1)
    (hok : VmOk 4 s2) (hspaces : s2.spaces = s1.spaces) (hkernel : s2.kernelCr3 = s1.kernelCr3)
    (htotal : s2.pmm.totalPagesCnt = s1.pmm.totalPagesCnt) (hlog : s2.handed = s1.handed)
    (hbits : ∀ i, f / 4096 ≠ i → bitTest s2.pmm i = bitTest s1.pmm i)
    (hfresh : bitTest s2.pmm (f / 4096) = true →
      ∃ p, UserPath 4 p ∧ nodeAt s2.mem r p = some (f / 4096 * 4096))
    (hkeep : ∀ r' ∈ s.roots, ∀ p n, UserPath 4 p → nodeAt s1.mem r' p = some n →
      nodeAt s2.mem r' p = some n)
    (hnew : ∀ r' ∈ s.roots, ∀ p n, UserPath 4 p → nodeAt s2.mem r' p = some n →
      nodeAt s1.mem r' p = some n ∨ (r' = r ∧ n = f))
    (hmem : ∀ a, s2.mem a ≠ s1.mem a → ∃ (p : List Idx) (i : Idx), UserPath 4 (p ++ [i]) ∧
      nodeAt s1.mem r p = some (a / 4096 * 4096) ∧ a % 4096 / 8 = i) :
    Extends 4 r (new ++ [f]) s s2 := by
  have hf := hp.handed
  have hclear : ∀ {i}, bitTest s'.pmm i = false → bitTest s.pmm i = false := fun hi =>
    Bool.eq_false_iff.mpr fun hset => used_ne_clear (hp.used hset) hi rfl
  -- nodes of `s1` are nodes of `s` or were handed out since
  have hback : ∀ r' ∈ s.roots, ∀ p n, UserPath 4 p → nodeAt s1.mem r' p = some n →
      nodeAt s.mem r' p = some n ∨ (r' = r ∧ n ∈ new ++ [f]) := by
    intro r' hr' p n hq hn
    rcases hg.linked r' (hp.roots ▸ hr') p n hq hn with hold | ⟨hrr, hnew⟩
    · exact Or.inl ((hp.nodeAt_eq h hr' hq).symm.trans hold)
    · exact Or.inr ⟨hrr, mem_append_left _ hnew⟩
  have hkeep1 : ∀ r' ∈ s.roots, ∀ p n, UserPath 4 p → nodeAt s.mem r' p = some n →
      nodeAt s2.mem r' p = some n := by
    intro r' hr' p n hq hn
    refine hkeep r' hr' p n hq (hg.keep r' (hp.roots ▸ hr') p n hq ?_)
    exact (hp.nodeAt_eq h hr' hq).trans hn
  refine ⟨hok, hspaces.trans (hg.spaces.trans hp.spaces), hkernel.trans (hg.kernel.trans hp.kernel),
    htotal.trans (hg.total.trans hf.total), ?_, ?_, ?_, ?_, hkeep1, ?_, ?_⟩
  · rw [hlog, hg.handed, hp.log, append_assoc]
    rfl
  · intro g hgm
    rcases mem_append.mp hgm with hgm | hgm
    · exact ⟨(hg.clear g hgm).1, hclear (hg.clear g hgm).2⟩
    · rw [mem_singleton.mp hgm]
      exact ⟨hf.aligned, hf.clear⟩
  · intro i hi
    rw [hbits i (used_ne_clear hi hf.clear).symm]
    exact hg.used i (hp.used hi)
  · intro i hi hi'
    by_cases hfi : f / 4096 = i
    · subst hfi
      exact hfresh hi
    · rw [hbits i hfi] at hi
      have hmid : bitTest s'.pmm i = false := by
        rw [hf.bits, hi']
        simpa using hfi
      obtain ⟨p, hq, hn⟩ := hg.fresh i hi hmid
      exact ⟨p, hq, hkeep r hr p _ hq hn⟩
  · intro r' hr' p n hq hn
    rcases hnew r' hr' p n hq hn with hold | ⟨hrr, rfl⟩
    · exact hback r' hr' p n hq hold
    · exact Or.inr ⟨hrr, mem_append_right _ (mem_singleton.mpr rfl)⟩
  · intro a ha
    by_cases h2 : s2.mem a = s1.mem a
    · rw [h2] at ha
      by_cases h1 : s1.mem a = s'.mem a
      · rw [h1] at ha
        left
        by_contra hout
        refine ha (hp.outside fun haf => hout (mem_append_right _ ?_))
        have := hf.aligned
        rw [mem_singleton]
        omega
      · rcases hg.mem a h1 with hnew | ⟨p, i, hq, hn, hi⟩
        · exact Or.inl (mem_append_left _ hnew)
        · rw [hp.nodeAt_eq h hr (hq.closed p i)] at hn
          exact Or.inr ⟨p, i, hq, hn, hi⟩
    · obtain ⟨p, i, hq, hn, hi⟩ := hmem a h2
      rcases hback r hr p _ (hq.closed p i) hn with hold | ⟨_, hnew⟩
      · exact Or.inr ⟨p, i, hq, hold, hi⟩
      · exact Or.inl hnew

end

/-- Flags of a page: no address bits. -/
def PageFlags (flags : ℕ) : Prop := flags < 2 ^ 64 ∧ flags &&& vmmAddrMask = 0

/-- The page of `v` was not mapped in `s`; in `s'` it is mapped to the frame `f`, which was free. -/
structure MappedTo (r v flags : ℕ) (content : ℕ → UInt8) (s s' : Vm) (f : ℕ) : Prop where
  absent : pte s.mem r v = none
  clear : bitTest s.pmm (f / 4096) = false
  frame : FrameOk s'.pmm f
  node : nodeAt s'.mem r (tablePath v ++ [l1 v]) = some f
  entry : pte s'.mem r v = some (f ||| (flags ||| vmmFlagPresent))
  content : ∀ x, x < 4096 → s'.mem (f + x) = content x

/-- Every page but that of `v` in `r` is translated as before. -/
def PtesKept (r v : ℕ) (s s' : Vm) : Prop :=
  ∀ r' ∈ s.roots, ∀ w, l4 w ≠ 0 → ¬ (r' = r ∧ pageNum w = pageNum v) →
    pte s'.mem r' w = pte s.mem r' w

lemma pageFrame_and_mask {p : Pmm} (hf : FrameOk p f) : f &&& vmmAddrMask = f := by
  have h1 := hf.aligned
  have h2 := hf.tracked
  simp only [maxPages, maxPhysBytes, pageSize] at h2
  rw [and_vmmAddrMask]
  omega

/-- The pending frame is given back after the mapping failed: tables may have been added. -/
lemma Pending.giveBack (hp : Pending s f content s') (h : VmOk 4 s) (hr : r ∈ s.roots)
    (hg : Grows 4 r new s' s1) :
    Extends 4 r (new ++ [f]) s { s1 with pmm := pmmFreePages s1.pmm f 1 } := by
  have hf := hp.handed
  have hne := hp.ne h hg
  set s2 : Vm := { s1 with pmm := pmmFreePages s1.pmm f 1 } with hs2
  have hfree : ∀ i, bitTest s2.pmm i = (bitTest s1.pmm i && !decide (f / 4096 = i)) :=
    bitTest_free_frame hf.ne_zero (lt_of_lt_of_eq hf.tracked (h.total.trans hg.ok.total.symm))
  have hbits : ∀ i, f / 4096 ≠ i → bitTest s2.pmm i = bitTest s1.pmm i := by
    intro i hi
    rw [hfree i, decide_eq_false hi, Bool.not_false, Bool.and_true]
  have hok2 : VmOk 4 s2 := by
    have hnz := hf.ne_zero
    have hal := hf.aligned
    refine hg.ok.of_sameTables (by decide) (le_refl 4) (fun _ _ _ _ _ _ _ => rfl) (fun _ h => h)
      (pmmFreePages_countExact hg.ok.count _ _) ?_ ?_ ?_
    · exact (pmmFreePages_totalPagesCnt _ _ _).trans hg.ok.total
    · rw [hbits 0 (by omega)]
      exact hg.ok.zero
    · intro r' hr' p n hq hn
      have hn' := hg.ok.frames r' hr' p n hq hn
      have := hn'.aligned
      rw [hbits _ fun heq => hne r' hr' p hq (by rw [hn, show n = f by omega])]
      exact hn'.used
  refine hp.extends h hr hg hok2 rfl rfl (pmmFreePages_totalPagesCnt _ _ _) rfl hbits ?_
    (fun _ _ _ _ _ hn => hn) (fun _ _ _ _ _ hn => Or.inl hn) (fun _ ha => absurd rfl ha)
  intro hset
  rw [hfree] at hset
  simp at hset

lemma writeEntry_cell {m : Memory} {a : ℕ} (ht : t % 4096 = 0) (ha : writeEntry m t i e a ≠ m a) :
    a / 4096 * 4096 = t ∧ a % 4096 / 8 = i := by
  have hi := i.isLt
  by_contra hout
  exact ha (writeEntry_outside (by omega))

/-- The filled frame is not written by the tables that are added before it is mapped. -/
lemma Pending.content_kept (hp : Pending s f content s') (h : VmOk 4 s) (hr : r ∈ s.roots)
    (hg : Grows 4 r new s' s1) {x : ℕ} (hx : x < 4096) : s1.mem (f + x) = content x := by
  have hf := hp.handed
  have hal := hf.aligned
  have h1 : s1.mem (f + x) = s'.mem (f + x) := by
    by_contra hch
    rcases hg.mem _ hch with hnew | ⟨p, i, hq, hn, _⟩
    · have hcl := (hg.clear _ hnew).2
      rw [hf.bits, show (f + x) / 4096 * 4096 / 4096 = f / 4096 by omega] at hcl
      simp at hcl
    · rw [show (f + x) / 4096 * 4096 = f by omega] at hn
      have hq' := hq.closed p i
      exact hp.ne h hg r (hg.roots ▸ hp.roots ▸ hr) p hq' (hg.keep r (hp.roots ▸ hr) p f hq' hn)
  rw [h1, hp.mem, overlay_inside (by omega) (by simp only [pageSize]; omega), Nat.add_sub_cancel_left]

lemma Pending.mapped {flags pt : ℕ} {s2 : Vm} (hp : Pending s f content s') (h : VmOk 4 s)
    (hr : r ∈ s.roots) (hv : l4 v ≠ 0) (hflags : PageFlags flags) (hg : Grows 4 r new s' s1)
    (hpt : nodeAt s1.mem r (tablePath v) = some pt) (hnone : pte s.mem r v = none)
    (hs2 : s2 = { s1 with
      mem := writeEntry s1.mem pt (l1 v) ((f &&& vmmAddrMask) ||| (flags ||| vmmFlagPresent)) }) :
    Extends 4 r (new ++ [f]) s s2 ∧ PtesKept r v s s2 ∧ MappedTo r v flags content s s2 f := by
  have hf := hp.handed
  have hne := hp.ne h hg
  have hr1 : r ∈ s1.roots := hg.roots ▸ hp.roots ▸ hr
  have hpath := userPath_tablePath hv
  have hlen := tablePath_length v
  have hpte1 : ∀ r' ∈ s.roots, ∀ w, l4 w ≠ 0 → pte s1.mem r' w = pte s.mem r' w :=
    fun r' hr' w hw => (hg.leaf r' (hp.roots ▸ hr') _ _ (userPath_tablePath hw)
      (tablePath_length w)).trans
        (leafAt_of_agree (hp.sameTables h r' hr') (userPath_tablePath hw) _)
  have hframe : FrameOk s1.pmm f := (hf.frameOk h.total).mono (hg.used _ (hf.frameOk h.total).used)
  obtain ⟨hmod, hpresent, haddr⟩ := leafEntry_spec f hflags.1 hflags.2
  rw [pageFrame_and_mask hframe] at hmod hpresent haddr hs2
  set e := f ||| (flags ||| vmmFlagPresent) with he
  have hempty : tableChild s1.mem pt (l1 v) = none := by
    have hleaf : leafAt s1.mem r (tablePath v) (l1 v) = none := (hpte1 r hr v hv).trans hnone
    rw [leafAt_of_some hpt] at hleaf
    by_cases hpr : readEntry s1.mem pt (l1 v) &&& vmmFlagPresent = 0
    · exact tableChild_of_absent hpr
    · rw [if_neg hpr] at hleaf
      exact absurd hleaf (by simp)
  obtain ⟨hok2, hwalk⟩ := hg.ok.linkLeaf hr1 (i := l1 v) hpath hlen hpt hframe hne
    (e := e) (by rw [hmod]; exact hpresent) (by rw [hmod]; exact haddr) hs2
  obtain ⟨hself, hother⟩ := hg.ok.leafAt_writeLeaf (by decide) hr1 (i := l1 v) hpath hlen hpt e
  have hnode : nodeAt s2.mem r (tablePath v ++ [l1 v]) = some f :=
    (hwalk r hr1 _ (hpath.snoc hlen (l1 v))).1 ⟨rfl, rfl⟩
  have hcell : ∀ a, s2.mem a ≠ s1.mem a → a / 4096 * 4096 = pt ∧ a % 4096 / 8 = l1 v := by
    intro a ha
    rw [hs2] at ha
    exact writeEntry_cell (hg.ok.frames r hr1 _ pt (hpath.mono (by decide)) hpt).aligned ha
  have hmem2 : s2.mem = writeEntry s1.mem pt (l1 v) e := by rw [hs2]
  have hpmm2 : s2.pmm = s1.pmm := by rw [hs2]
  refine ⟨?_, ?_, hnone, hf.clear, hpmm2 ▸ hframe, hnode, ?_, ?_⟩
  · refine hp.extends h hr hg hok2 (by rw [hs2]) (by rw [hs2]) (by rw [hpmm2]) (by rw [hs2])
      (fun _ _ => by rw [hpmm2]) (fun _ => ?_) ?_ ?_ ?_
    · refine ⟨_, hpath.snoc hlen (l1 v), ?_⟩
      rw [hnode, show f / 4096 * 4096 = f by have := hf.aligned; omega]
    · intro r' hr' p n hq hn
      refine ((hwalk r' (hg.roots ▸ hp.roots ▸ hr') p hq).2 ?_).trans hn
      rintro ⟨rfl, rfl⟩
      rw [nodeAt_snoc hpt, hempty] at hn
      exact absurd hn (by simp)
    · intro r' hr' p n hq hn
      exact (hwalk.cases (hg.roots ▸ hp.roots ▸ hr') hq hn).imp_right
        fun hnew => ⟨hnew.1, (Option.some.inj hnew.2.2).symm⟩
    · intro a ha
      obtain ⟨hpage, hi⟩ := hcell a ha
      exact ⟨tablePath v, l1 v, hpath.snoc hlen (l1 v), by rw [hpage]; exact hpt, hi⟩
  · intro r' hr' w hw hdiff
    rw [hmem2]
    refine (hother r' (hg.roots ▸ hp.roots ▸ hr') _ _ (userPath_tablePath hw) ?_).trans
      (hpte1 r' hr' w hw)
    exact fun hsame => hdiff ⟨hsame.1, (tablePath_eq_iff w v).mp hsame.2⟩
  · rw [hmod, if_neg hpresent] at hself
    rw [hmem2]
    exact hself
  · intro x hx
    rw [← hp.content_kept h hr hg hx]
    by_contra hch
    have hal := hf.aligned
    refine hne r hr1 _ (hpath.mono (by decide)) ?_
    rw [hpt, ← (hcell _ hch).1, show (f + x) / 4096 * 4096 = f by omega]

/-- **What `mapFreshPage` can do**: add tables to the space and fail, or add tables and map the page
to a frame that was free. -/
theorem mapFreshPage_spec (h : VmOk 4 s) (hr : r ∈ s.roots) {flags : ℕ} (hv : l4 v ≠ 0)
    (hflags : PageFlags flags) (content : ℕ → UInt8) :
    ∃ b s' new, mapFreshPage content s r v flags = (b, s') ∧ Extends 4 r new s s' ∧
      PtesKept r v s s' ∧
      (b = false → pte s'.mem r v = pte s.mem r v) ∧
      (b = true → ∃ f, MappedTo r v flags content s s' f) := by
  rcases s.allocPage_cases h.zero with heq | ⟨f, p', hf, heq⟩
  · refine ⟨false, s, [], ?_, Extends.refl h r, fun _ _ _ _ _ => rfl, fun _ => rfl, by simp⟩
    simp only [mapFreshPage, heq, if_true]
  set sA : Vm := { s with
    pmm := p', mem := overlay s.mem f pageSize content, handed := f :: s.handed } with hsA
  have hp : Pending s f content sA := ⟨hf, rfl, rfl, rfl, rfl⟩
  have hpteA : ∀ r' ∈ s.roots, ∀ w, l4 w ≠ 0 → pte sA.mem r' w = pte s.mem r' w :=
    fun r' hr' w hw => leafAt_of_agree (hp.sameTables h r' hr') (userPath_tablePath hw) _
  obtain ⟨s1, new, hg, ⟨_, hfail⟩ | ⟨⟨hnone, _⟩, _, pt, hpt, hsucc⟩⟩ :=
    mapPageInner_spec (hp.vmOk h) (by decide) (r := r) hr hv f flags
  · have hpte1 : ∀ r' ∈ s.roots, ∀ w, l4 w ≠ 0 → pte s1.mem r' w = pte s.mem r' w :=
      fun r' hr' w hw => (hg.leaf r' hr' _ _ (userPath_tablePath hw) (tablePath_length w)).trans
        (hpteA r' hr' w hw)
    refine ⟨false, _, _, ?_, hp.giveBack h hr hg, fun r' hr' w hw _ => hpte1 r' hr' w hw,
      fun _ => hpte1 r hr v hv, by simp⟩
    simp only [mapFreshPage, heq, if_neg hf.ne_zero, vmmMapPage, ← hsA, hfail]
  · rw [hpteA r hr v hv] at hnone
    obtain ⟨hext, hkept, hmapped⟩ := hp.mapped h hr hv hflags hg hpt hnone rfl
    refine ⟨true, _, _, ?_, hext, hkept, by simp, fun _ => ⟨f, hmapped⟩⟩
    simp only [mapFreshPage, heq, if_neg hf.ne_zero, vmmMapPage, ← hsA, hsucc]

/-! ## Unmapping a page and freeing its frame -/

/-- The page of `v` was mapped to the frame `f`; in `s'` it is not mapped and `f` is free. -/
structure Unmapped (r v : ℕ) (s s' : Vm) (f : ℕ) : Prop where
  ok : VmOk 4 s'
  spaces : s'.spaces = s.spaces
  kernel : s'.kernelCr3 = s.kernelCr3
  total : s'.pmm.totalPagesCnt = s.pmm.totalPagesCnt
  log : s'.handed = s.handed
  node : nodeAt s.mem r (tablePath v ++ [l1 v]) = some f
  bits : ∀ i, bitTest s'.pmm i = (bitTest s.pmm i && !decide (f / 4096 = i))
  nodes : ∀ r' ∈ s.roots, ∀ p, UserPath 4 p →
    (r' = r ∧ p = tablePath v ++ [l1 v] → nodeAt s'.mem r' p = none) ∧
    (¬ (r' = r ∧ p = tablePath v ++ [l1 v]) → nodeAt s'.mem r' p = nodeAt s.mem r' p)
  absent : pte s'.mem r v = none
  kept : PtesKept r v s s'
  mem : ∀ a, s'.mem a ≠ s.mem a →
    nodeAt s.mem r (tablePath v) = some (a / 4096 * 4096) ∧ a % 4096 / 8 = l1 v

/-- **What `unmapFreePage` can do**: nothing if the page is not mapped, else free the frame. -/
theorem unmapFreePage_spec (h : VmOk 4 s) (hr : r ∈ s.roots) (hv : l4 v ≠ 0) :
    (pte s.mem r v = none ∧ unmapFreePage s r v = s) ∨
    ∃ f, Unmapped r v s (unmapFreePage s r v) f := by
  have hpath := userPath_tablePath hv
  have hlen := tablePath_length v
  rcases vmmUnmapPage_spec h hr v with ⟨hnone, heq⟩ | ⟨pt, e, hpt, hsome, heq⟩
  · exact Or.inl ⟨hnone, by simp [unmapFreePage, heq, freeFrames]⟩
  right
  have hnode := nodeAt_of_leafAt hsome
  set f := e &&& vmmAddrMask with hf
  have hframe := h.frames r hr _ f (hpath.snoc hlen (l1 v)) hnode
  set s1 : Vm := { s with mem := writeEntry s.mem pt (l1 v) 0 } with hs1
  obtain ⟨hok1, hwalk⟩ := h.cutLeaf hr (i := l1 v) hpath hlen hpt hs1
  obtain ⟨hself, hother⟩ := h.leafAt_writeLeaf (by decide) hr (i := l1 v) hpath hlen hpt 0
  have hres : unmapFreePage s r v = { s1 with pmm := pmmFreePages s.pmm f 1 } := by
    simp only [unmapFreePage, heq, freeFrames, if_neg hframe.ne_zero, hs1]
  rw [hres]
  have hbits := bitTest_free_frame hframe.ne_zero (lt_of_lt_of_eq hframe.tracked h.total.symm)
  refine ⟨f, ?_, rfl, rfl, pmmFreePages_totalPagesCnt _ _ _, rfl, hnode, hbits, hwalk, ?_, ?_, ?_⟩
  · refine hok1.of_sameTables (by decide) (le_refl 4) (fun _ _ _ _ _ _ _ => rfl) (fun _ h => h)
      (pmmFreePages_countExact h.count _ _) ?_ ?_ ?_
    · exact (pmmFreePages_totalPagesCnt _ _ _).trans h.total
    · have h1 := hframe.ne_zero
      have h2 := hframe.aligned
      show bitTest (pmmFreePages s.pmm f 1) 0 = true
      rw [hbits, h.zero, Bool.true_and, Bool.not_eq_true', decide_eq_false_iff_not]
      omega
    · -- the frame was reached by the page that is gone and by nothing else
      intro r' hr' p n hq hn
      have hn1 := hok1.frames r' hr' p n hq hn
      show bitTest (pmmFreePages s.pmm f 1) (n / 4096) = true
      rw [hbits, hn1.used, Bool.true_and, Bool.not_eq_true', decide_eq_false_iff_not]
      intro hpage
      have h1 := hn1.aligned
      have h2 := hframe.aligned
      have hnf : n = f := by omega
      by_cases hcut : r' = r ∧ p = tablePath v ++ [l1 v]
      · rw [nodeAt, (hwalk r' hr' p hq).1 hcut] at hn
        exact absurd hn (by simp)
      · rw [nodeAt, (hwalk r' hr' p hq).2 hcut, hnf] at hn
        exact hcut (h.unshared hr' hr hq (hpath.snoc hlen (l1 v)) hn hnode)
  · exact hself
  · intro r' hr' w hw hdiff
    exact hother r' hr' _ _ (userPath_tablePath hw)
      fun hsame => hdiff ⟨hsame.1, (tablePath_eq_iff w v).mp hsame.2⟩
  · intro a ha
    have hcell := writeEntry_cell (h.frames r hr _ pt (hpath.mono (by decide)) hpt).aligned ha
    exact ⟨by rw [hcell.1]; exact hpt, hcell.2⟩

end MyOs
