import MyOs.Memory.KernelInit

/-!
# The heap of a user thread

`vmm_user_set_brk` grows and shrinks the heap page by page.  A grow that runs out of frames returns
false and leaves the pages it has already mapped; an end below the start of the heap is stored as it
is; and one near `2 ^ 64` is rounded up to 0.  Outside these cases the mapped pages of the heap are
those below its end, whatever the other clients of the page allocator do meanwhile.

The first half of this file says when mapping cannot fail: a page takes one frame, and three more if
its page table is not there yet.
-/

namespace MyOs

open Lib

variable {r : ℕ} {s s' : Vm} {p p' : Pmm} {flags : ℕ}
variable {n newEnd v : ℕ} {t : UserThread}

/-! ## Enough frames -/

/-- The frames that the page of `v` may need for tables. -/
def tablesNeeded (s : Vm) (r v : ℕ) : ℕ :=
  if nodeAt s.mem r (tablePath v) = none then 3 else 0

lemma card_missingOn_le (s : Vm) (r v : ℕ) :
    (missingOn s.mem r (tablesOf v)).card ≤ tablesNeeded s r v := by
  rw [tablesNeeded]
  split
  · exact (Finset.card_filter_le _ _).trans ((Finset.card_insert_le _ _).trans
      (Nat.succ_le_succ ((Finset.card_insert_le _ _).trans (Nat.succ_le_succ
        (Finset.card_insert_le _ _)))))
  · rename_i hsome
    rw [Nat.le_zero, Finset.card_eq_zero, missingOn, Finset.filter_eq_empty_iff]
    intro p hp hnone
    obtain ⟨t, ht⟩ := (mem_tablesOn hp).2
    refine hsome ?_
    rw [← List.nil_append (tablePath v), ← ht, nodeAt, walk_append,
      show walk (tableChild s.mem) r p = none from hnone]
    rfl

lemma mapPageInner_of_free (h : VmOk 4 s) (hr : r ∈ s.roots) (hv : l4 v ≠ 0)
    (habsent : pte s.mem r v = none) (hfree : tablesNeeded s r v ≤ s.pmm.freePagesCnt) (phys flags : ℕ) :
    ∃ s', mapPageInner s r v phys flags = (true, s') ∧
      s.pmm.freePagesCnt ≤ s'.pmm.freePagesCnt + tablesNeeded s r v := by
  have hle := card_missingOn_le s r v
  obtain ⟨s1, _, _, ⟨hnot, _⟩ | ⟨_, hadds, _, _, heq⟩⟩ :=
    mapPageInner_spec h (by decide) hr hv phys flags
  · exact absurd ⟨habsent, hle.trans hfree⟩ hnot
  · have := hadds.free
    exact ⟨_, heq, by dsimp only; omega⟩

/-- A page that is not mapped can be, if there are frames for it and its tables. -/
lemma mapFreshPage_of_free (h : VmOk 4 s) (hr : r ∈ s.roots) (hv : l4 v ≠ 0)
    (habsent : pte s.mem r v = none) (hfree : tablesNeeded s r v < s.pmm.freePagesCnt)
    (content : ℕ → UInt8) (flags : ℕ) :
    ∃ s', mapFreshPage content s r v flags = (true, s') ∧
      s.pmm.freePagesCnt ≤ s'.pmm.freePagesCnt + 1 + tablesNeeded s r v := by
  rcases s.allocPage_exact h.zero h.count with ⟨hempty, _⟩ | ⟨f, p', hf, hcount, heq⟩
  · omega
  have hp : Pending s f content { s with
      pmm := p', mem := overlay s.mem f pageSize content, handed := f :: s.handed } :=
    ⟨hf, rfl, rfl, rfl, rfl⟩
  have hnode := hp.nodeAt_eq h hr ((userPath_tablePath hv).mono (by decide))
  have hpte := (leafAt_of_agree (hp.sameTables h r hr) (userPath_tablePath hv) (l1 v)).trans habsent
  have hok := hp.vmOk h
  have hmap : ∃ s', vmmMapPage { s with
      pmm := p', mem := overlay s.mem f pageSize content, handed := f :: s.handed } r v f flags =
        (true, s') ∧ p'.freePagesCnt ≤ s'.pmm.freePagesCnt + tablesNeeded s r v := by
    have hsame : tablesNeeded { s with
        pmm := p', mem := overlay s.mem f pageSize content, handed := f :: s.handed } r v =
          tablesNeeded s r v := by rw [tablesNeeded, hnode, tablesNeeded]
    rw [← hsame]
    refine mapPageInner_of_free hok hr hv hpte ?_ f flags
    rw [hsame]
    exact Nat.le_of_lt_succ (Nat.lt_of_lt_of_eq hfree hcount.symm)
  obtain ⟨s', hmap, hcount'⟩ := hmap
  refine ⟨s', ?_, by omega⟩
  simp only [mapFreshPage, heq, if_neg hf.ne_zero, hmap]

/-! ## Ranges of pages -/

/-- The frames that `n` pages from `va` on may take: one for each, and three tables for each region
of 2 MiB that they touch. -/
def framesFor (va n : ℕ) : ℕ := n + 3 * ((va + 4096 * n + (2 ^ 21 - 1)) / 2 ^ 21 - va / 2 ^ 21)

lemma l4_ne_zero (hlo : 2 ^ 39 ≤ v) (hhi : v < 2 ^ 47) : l4 v ≠ 0 := by
  intro h
  have hval := congrArg Fin.val h
  simp only [l4, Fin.val_ofNat, Fin.val_zero] at hval
  omega

lemma tablePath_eq {w : ℕ} (h : v / 2 ^ 21 = w / 2 ^ 21) : tablePath v = tablePath w := by
  simp only [tablePath, l4, l3, l2, List.cons.injEq, and_true, Fin.ext_iff, Fin.val_ofNat]
  omega

lemma pte_eq {m : Memory} {w : ℕ} (h : v / 4096 = w / 4096) : pte m r v = pte m r w := by
  obtain ⟨hpath, hl1⟩ := (tablePath_eq_iff v w).mpr (by rw [pageNum, pageNum, h])
  rw [pte, pte, hpath, hl1]

/-- The pages of `r` from `va` on, `n` of them, are as `now` says, and all others as before. -/
def PagesSet (r va n : ℕ) (now : Option ℕ → Prop) (s s' : Vm) : Prop :=
  ∀ w, l4 w ≠ 0 → w < 2 ^ 48 →
    (va ≤ w ∧ w < va + 4096 * n → now (pte s'.mem r w)) ∧
    (¬ (va ≤ w ∧ w < va + 4096 * n) → pte s'.mem r w = pte s.mem r w)

lemma PagesSet.zero (r va : ℕ) (now : Option ℕ → Prop) (s : Vm) : PagesSet r va 0 now s s :=
  fun _ _ _ => ⟨fun h => absurd h (by omega), fun _ => rfl⟩

lemma PagesSet.cons {va : ℕ} {now : Option ℕ → Prop} {s1 : Vm} (hr : r ∈ s.roots) (hva : va % 4096 = 0)
    (hhi : va + 4096 * (n + 1) ≤ 2 ^ 47) (hkept : PtesKept r va s s1) (hnow : now (pte s1.mem r va))
    (h : PagesSet r (va + 4096) n now s1 s') : PagesSet r va (n + 1) now s s' := by
  intro w hw hlt
  obtain ⟨hin, hout⟩ := h w hw hlt
  by_cases hfirst : w / 4096 = va / 4096
  · have hsame : pte s'.mem r w = pte s1.mem r va := (hout (by omega)).trans (pte_eq hfirst)
    refine ⟨fun _ => ?_, fun hnot => absurd ?_ hnot⟩
    · rw [hsame]
      exact hnow
    · omega
  · refine ⟨fun hrange => hin (by omega), fun hnot => (hout (by omega)).trans ?_⟩
    refine hkept r hr w hw fun hpage => hfirst ?_
    have hnum := hpage.2
    simp only [pageNum] at hnum
    omega

lemma mapFreshPages_of_free (hflags : PageFlags flags) (n : ℕ) :
    ∀ {s : Vm} {va : ℕ}, VmOk 4 s → r ∈ s.roots → va % 4096 = 0 → 2 ^ 39 ≤ va →
      va + 4096 * n ≤ 2 ^ 47 → (∀ k < n, pte s.mem r (va + 4096 * k) = none) →
      framesFor va n + tablesNeeded s r va ≤ s.pmm.freePagesCnt + 3 →
      ∃ s' new, mapFreshPages r flags n s va = (n, s') ∧ Extends 4 r new s s' ∧
        PagesSet r va n (· ≠ none) s s' := by
  induction n with
  | zero =>
    intro s va h _ _ _ _ _ _
    exact ⟨s, [], rfl, Extends.refl h r, .zero r va _ s⟩
  | succ n ih =>
    intro s va h hr hva hlo hhi habsent hfree
    have hv : l4 va ≠ 0 := l4_ne_zero hlo (by omega)
    have hneeded : tablesNeeded s r va ≤ 3 := by
      rw [tablesNeeded]
      split <;> omega
    have hregion : n + 1 + 3 ≤ framesFor va (n + 1) := by
      rw [framesFor]
      omega
    obtain ⟨s1, hmap, hcount⟩ := mapFreshPage_of_free h hr hv (habsent 0 (Nat.succ_pos n))
      (by omega) (fun _ => 0) flags
    obtain ⟨b, s2, new1, heq, he, hkept, _, hsucc⟩ := mapFreshPage_spec h hr hv hflags fun _ => 0
    obtain ⟨rfl, rfl⟩ := Prod.mk.inj (hmap.symm.trans heq)
    obtain ⟨f, hm⟩ := hsucc rfl
    have htable : nodeAt s1.mem r (tablePath va) ≠ none := by
      intro hnone
      have hnode := hm.node
      rw [nodeAt, walk_snoc, show walk (tableChild s1.mem) r (tablePath va) = none from hnone]
        at hnode
      cases hnode
    have hnext : (va + pageSize) % 2 ^ 64 = va + 4096 := by
      rw [pageSize]
      omega
    -- the next page is in the same table, or in a region of its own
    have hfree1 : framesFor (va + 4096) n + tablesNeeded s1 r (va + 4096) ≤
        s1.pmm.freePagesCnt + 3 := by
      by_cases hsame : (va + 4096) / 2 ^ 21 = va / 2 ^ 21
      · have hzero : tablesNeeded s1 r (va + 4096) = 0 := by
          rw [tablesNeeded, tablePath_eq hsame, if_neg htable]
        rw [hzero]
        simp only [framesFor] at hfree hregion ⊢
        omega
      · have hthree : tablesNeeded s1 r (va + 4096) ≤ 3 := by
          rw [tablesNeeded]
          split <;> omega
        simp only [framesFor] at hfree hregion ⊢
        omega
    have habsent1 : ∀ k < n, pte s1.mem r (va + 4096 + 4096 * k) = none := by
      intro k hk
      have hle : va ≤ va + 4096 + 4096 * k := by omega
      have hlt : va + 4096 + 4096 * k < 2 ^ 47 := by omega
      have hk4 : l4 (va + 4096 + 4096 * k) ≠ 0 := l4_ne_zero (hlo.trans hle) hlt
      rw [hkept r hr (va + 4096 + 4096 * k) hk4 fun hpage => ?_]
      · rw [show va + 4096 + 4096 * k = va + 4096 * (k + 1) by omega]
        exact habsent (k + 1) (by omega)
      · have hnum := hpage.2
        simp only [pageNum] at hnum
        omega
    have hva1 : (va + 4096) % 4096 = 0 := by omega
    have hhi1 : va + 4096 + 4096 * n ≤ 2 ^ 47 := by omega
    obtain ⟨s', new2, heq2, he2, hpages⟩ := ih he.ok (he.roots ▸ hr) hva1
      (hlo.trans (Nat.le_add_right va 4096)) hhi1 habsent1 hfree1
    refine ⟨s', new2 ++ new1, ?_, he.trans hr he2, .cons hr hva hhi hkept ?_ hpages⟩
    · simp only [mapFreshPages, hmap, hnext, heq2]
    · rw [hm.entry]
      exact Option.some_ne_none _

lemma unmapFreePages_pages (n : ℕ) :
    ∀ {s : Vm} {va : ℕ}, VmOk 4 s → r ∈ s.roots → va % 4096 = 0 → 2 ^ 39 ≤ va →
      va + 4096 * n ≤ 2 ^ 47 → PagesSet r va n (· = none) s (unmapFreePages r n s va) := by
  induction n with
  | zero =>
    intro s va _ _ _ _ _
    exact .zero r va _ s
  | succ n ih =>
    intro s va h hr hva hlo hhi
    have hv : l4 va ≠ 0 := l4_ne_zero hlo (by omega)
    have hnext : (va + pageSize) % 2 ^ 64 = va + 4096 := by
      rw [pageSize]
      omega
    have hva1 : (va + 4096) % 4096 = 0 := by omega
    have hlo1 : 2 ^ 39 ≤ va + 4096 := hlo.trans (Nat.le_add_right va 4096)
    have hhi1 : va + 4096 + 4096 * n ≤ 2 ^ 47 := by omega
    rw [unmapFreePages, hnext]
    rcases unmapFreePage_spec h hr hv with ⟨hnone, heq⟩ | ⟨f, hu⟩
    · rw [heq]
      exact .cons hr hva hhi (fun _ _ _ _ _ => rfl) hnone (ih h hr hva1 hlo1 hhi1)
    · have hroots : (unmapFreePage s r va).roots = s.roots := by rw [Vm.roots, Vm.roots, hu.spaces]
      exact .cons hr hva hhi hu.kept hu.absent (ih hu.ok (hroots ▸ hr) hva1 hlo1 hhi1)

/-! ## The heap -/

/-- A thread, and the memory of the system. -/
structure BrkSys where
  sys : MemSys
  thread : UserThread

/-- The thread calls `SYS_brk`, or another client takes pages from the page allocator or gives them
back. -/
inductive BrkOp
  | brk (newEnd : ℕ)
  | alloc (pages : ℕ)
  | free (addr pages : ℕ)

namespace BrkSys

def step (h : BrkSys) : BrkOp → BrkSys
  | .brk newEnd =>
    let res := sysBrk h.sys.vm h.thread newEnd
    { sys := { h.sys with vm := res.2.1 }, thread := res.2.2 }
  | .alloc pages => { h with sys := h.sys.step (.alloc pages) }
  | .free addr pages => { h with sys := h.sys.step (.free addr pages) }

/-- The first page of the heap, and the first page behind its end. -/
def start (h : BrkSys) : ℕ := alignUpU64 h.thread.brkStart pageSize

def top (h : BrkSys) : ℕ := alignUpU64 h.thread.brkEnd pageSize

/-- What `vmm_resolve` finds in the thread's space. -/
def resolve (h : BrkSys) (va : ℕ) : Option (ℕ × ℕ) := vmmResolve h.sys.vm.mem h.thread.cr3 va

/-- The end lies in the heap area, which ends at `limit`; and a heap that grows finds all frames it
may need, or none at all. -/
def BrkOk (limit : ℕ) (h : BrkSys) (newEnd : ℕ) : Prop :=
  newEnd = 0 ∨ h.thread.brkStart ≤ newEnd ∧ newEnd ≤ limit ∧
    (alignUpU64 newEnd pageSize ≤ h.top ∨ h.sys.vm.pmm.freePagesCnt = 0 ∨
      framesFor h.top ((alignUpU64 newEnd pageSize - h.top) / pageSize) ≤
        h.sys.vm.pmm.freePagesCnt)

/-- Other clients free what they hold. -/
def Ok (limit : ℕ) (h : BrkSys) : BrkOp → Prop
  | .brk newEnd => h.BrkOk limit newEnd
  | .alloc _ => True
  | .free addr pages => (addr, pages) ∈ h.sys.others

/-- The heap area, up to `limit`, is mapped exactly below the end of the heap; and below the heap
everything is as in `h₀`. -/
structure InOrder (limit : ℕ) (h₀ h : BrkSys) : Prop where
  ordered : h.thread.brkStart ≤ h.thread.brkEnd
  mapped : ∀ va, h.start ≤ va → va < limit → (h.resolve va ≠ none ↔ va < h.top)
  below : ∀ va, va < h.start → h.resolve va = h₀.resolve va

/-- A call that reports failure leaves the end and all mappings as they were. -/
def FailsClean (h : BrkSys) (newEnd : ℕ) : Prop :=
  (sysBrk h.sys.vm h.thread newEnd).1 = 2 ^ 64 - 1 →
    (h.step (.brk newEnd)).thread.brkEnd = h.thread.brkEnd ∧
      ∀ va, (h.step (.brk newEnd)).resolve va = h.resolve va

/-- A heap area in PML4 entries 1 to 255. -/
structure Area (limit : ℕ) (h : BrkSys) : Prop where
  low : 2 ^ 39 ≤ h.start
  le : h.thread.brkStart ≤ limit
  high : limit ≤ 2 ^ 47
  aligned : limit % 4096 = 0

/-- What all steps keep: the thread and its area, and that the heap is in order. -/
structure Kept (K : ℕ → Prop) (limit : ℕ) (h₀ h : BrkSys) : Prop extends InOrder limit h₀ h where
  sound : h.sys.Sound K
  root : h.thread.cr3 ∈ h.sys.vm.roots
  isUser : h.thread.isUser = true
  brkStart : h.thread.brkStart = h₀.thread.brkStart
  cr3 : h.thread.cr3 = h₀.thread.cr3
  inArea : h.thread.brkEnd ≤ limit

variable {K : ℕ → Prop} {limit : ℕ} {h₀ h : BrkSys}

lemma resolve_iff (hs : VmOk 4 s) (hr : r ∈ s.roots) {va : ℕ} (hv : l4 va ≠ 0) :
    vmmResolve s.mem r va ≠ none ↔ pte s.mem r va ≠ none := by
  rw [vmmResolve_eq hs hr hv, ne_eq, Option.map_eq_none_iff]

lemma alignUpU64_small (hv : v ≤ 2 ^ 47) : alignUpU64 v pageSize = (v + 4095) / 4096 * 4096 := by
  rw [alignUpU64_page]
  omega

lemma vmmUserSetBrk_grow (hu : t.isUser = true) (hn : 0 < n)
    (htarget : brkTarget t newEnd = alignUpU64 t.brkEnd pageSize + 4096 * n) :
    vmmUserSetBrk s t newEnd =
      let r := mapFreshPages t.cr3 (vmmFlagPresent ||| vmmFlagWritable ||| vmmFlagUser) n s
        (alignUpU64 t.brkEnd pageSize)
      if r.1 = n then (true, r.2, { t with brkEnd := newEnd }) else (false, r.2, t) := by
  have hpages : (brkTarget t newEnd - alignUpU64 t.brkEnd pageSize) / pageSize = n := by
    rw [htarget, Nat.add_sub_cancel_left]
    exact Nat.mul_div_cancel_left n (by decide)
  have hgrow : brkTarget t newEnd > alignUpU64 t.brkEnd pageSize := by omega
  simp only [vmmUserSetBrk, hu, Bool.not_true, Bool.false_eq_true, if_false, if_pos hgrow, hpages]

lemma vmmUserSetBrk_shrink (hu : t.isUser = true)
    (htarget : brkTarget t newEnd + 4096 * n = alignUpU64 t.brkEnd pageSize) :
    vmmUserSetBrk s t newEnd =
      (true, unmapFreePages t.cr3 n s (brkTarget t newEnd), { t with brkEnd := newEnd }) := by
  have hpages : (alignUpU64 t.brkEnd pageSize - brkTarget t newEnd) / pageSize = n := by
    rw [← htarget, Nat.add_sub_cancel_left]
    exact Nat.mul_div_cancel_left n (by decide)
  have hshrink : ¬ brkTarget t newEnd > alignUpU64 t.brkEnd pageSize := by omega
  simp only [vmmUserSetBrk, hu, Bool.not_true, Bool.false_eq_true, if_false, if_neg hshrink, hpages]

lemma brk_eq {b : Bool} {vm : Vm} (hu : h.thread.isUser = true) (hne : newEnd ≠ 0)
    (hres : vmmUserSetBrk h.sys.vm h.thread newEnd = (b, vm, t)) :
    h.step (.brk newEnd) = ⟨⟨vm, h.sys.others⟩, t⟩ ∧
      (sysBrk h.sys.vm h.thread newEnd).1 = if b then t.brkEnd else 2 ^ 64 - 1 := by
  have hcall : sysBrk h.sys.vm h.thread newEnd = (if b then t.brkEnd else 2 ^ 64 - 1, vm, t) := by
    rw [sysBrk, hres]
    cases b <;> simp [hu, hne]
  exact ⟨by simp only [step, hcall], by rw [hcall]⟩

lemma failsClean_of_step_eq (h' : h.step (.brk newEnd) = h) : h.FailsClean newEnd := by
  intro _
  rw [h']
  exact ⟨rfl, fun _ => rfl⟩

lemma failsClean_of_success (hlt : (sysBrk h.sys.vm h.thread newEnd).1 ≤ 2 ^ 47) :
    h.FailsClean newEnd := by
  intro hfail
  omega

/-- Where the old and the new end of the heap lie. -/
structure Ends (limit : ℕ) (h : BrkSys) (newEnd : ℕ) : Prop where
  low : 2 ^ 39 ≤ h.start
  top : h.start ≤ h.top ∧ h.top ≤ limit ∧ h.top % 4096 = 0
  new : h.start ≤ alignUpU64 newEnd pageSize ∧ alignUpU64 newEnd pageSize ≤ limit ∧
    alignUpU64 newEnd pageSize % 4096 = 0
  target : brkTarget h.thread newEnd = alignUpU64 newEnd pageSize

lemma Kept.ends (hk : Kept K limit h₀ h) (ha : h₀.Area limit) (hlo : h.thread.brkStart ≤ newEnd)
    (hhi : newEnd ≤ limit) : Ends limit h newEnd := by
  have hstart : h.start = h₀.start := by rw [start, start, hk.brkStart]
  have hhigh := ha.high
  have haligned := ha.aligned
  have hord := hk.ordered
  have harea := hk.inArea
  have hs : h.start = (h.thread.brkStart + 4095) / 4096 * 4096 := alignUpU64_small (by omega)
  have ht : h.top = (h.thread.brkEnd + 4095) / 4096 * 4096 := alignUpU64_small (by omega)
  have hn : alignUpU64 newEnd pageSize = (newEnd + 4095) / 4096 * 4096 :=
    alignUpU64_small (by omega)
  refine ⟨hstart.symm ▸ ha.low, ⟨by omega, by omega, by omega⟩, ⟨by omega, by omega, by omega⟩, ?_⟩
  rw [brkTarget]
  refine if_neg ?_
  change ¬ alignUpU64 newEnd pageSize < h.start
  omega

section

variable (hk : Kept K limit h₀ h) (ha : h₀.Area limit) (hne : newEnd ≠ 0)
  (hlo : h.thread.brkStart ≤ newEnd) (hhi : newEnd ≤ limit)
include hk ha hne hlo hhi

lemma Kept.moved {new : List ℕ} {vm : Vm}
    (hcall : vmmUserSetBrk h.sys.vm h.thread newEnd = (true, vm, { h.thread with brkEnd := newEnd }))
    (hc : Confined h.thread.cr3 new h.sys.vm vm)
    (hin : ∀ w, l4 w ≠ 0 → w < 2 ^ 48 → ¬ (w < h.top ↔ w < alignUpU64 newEnd pageSize) →
      (pte vm.mem h.thread.cr3 w ≠ none ↔ w < alignUpU64 newEnd pageSize))
    (hout : ∀ w, l4 w ≠ 0 → w < 2 ^ 48 → (w < h.top ↔ w < alignUpU64 newEnd pageSize) →
      pte vm.mem h.thread.cr3 w = pte h.sys.vm.mem h.thread.cr3 w) :
    Kept K limit h₀ (h.step (.brk newEnd)) ∧ h.FailsClean newEnd := by
  obtain ⟨hlow, ⟨htop, htop', -⟩, ⟨hnew, -, -⟩, -⟩ := hk.ends ha hlo hhi
  have hhigh := ha.high
  have hroot : h.thread.cr3 ∈ vm.roots := hc.roots ▸ hk.root
  obtain ⟨hstep, hrax⟩ := brk_eq hk.isUser hne hcall
  refine ⟨?_, failsClean_of_success (by rw [hrax, if_pos rfl]; exact hhi.trans hhigh)⟩
  rw [hstep]
  refine ⟨⟨hlo, fun w hw hlt => ?_, fun w hw => ?_⟩, hk.sound.confined hk.root hc, hroot,
    hk.isUser, hk.brkStart, hk.cr3, hhi⟩
  · have hw4 : l4 w ≠ 0 := l4_ne_zero (hlow.trans hw) (Nat.lt_of_lt_of_le hlt hhigh)
    refine (resolve_iff hc.ok hroot hw4).trans ?_
    by_cases hsame : w < h.top ↔ w < alignUpU64 newEnd pageSize
    · rw [hout w hw4 (by omega) hsame, ← resolve_iff hk.sound.ok hk.root hw4]
      exact (hk.mapped w hw hlt).trans hsame
    · exact hin w hw4 (by omega) hsame
  · refine Eq.trans ?_ (hk.below w hw)
    change w < h.start at hw
    by_cases hw4 : l4 w = 0
    · exact hk.sound.resolve_kept hk.root hc.ownWrites (Or.inl hk.root) hw4
    · show vmmResolve vm.mem h.thread.cr3 w = vmmResolve h.sys.vm.mem h.thread.cr3 w
      rw [vmmResolve_eq hc.ok hroot hw4, vmmResolve_eq hk.sound.ok hk.root hw4,
        hout w hw4 (by omega) (by omega)]

lemma Kept.grow (hgrow : h.top < alignUpU64 newEnd pageSize)
    (hfree : framesFor h.top ((alignUpU64 newEnd pageSize - h.top) / pageSize) ≤
      h.sys.vm.pmm.freePagesCnt) :
    Kept K limit h₀ (h.step (.brk newEnd)) ∧ h.FailsClean newEnd := by
  obtain ⟨hlow, ⟨htop, htop', htop4⟩, ⟨hnew, hnew', hnew4⟩, htarget⟩ := hk.ends ha hlo hhi
  have hhigh := ha.high
  generalize hn : (alignUpU64 newEnd pageSize - h.top) / pageSize = n at hfree
  have hrange : alignUpU64 newEnd pageSize = h.top + 4096 * n := by
    change (_ - _) / 4096 = n at hn
    omega
  have habsent : ∀ k < n, pte h.sys.vm.mem h.thread.cr3 (h.top + 4096 * k) = none := by
    intro k hk'
    by_contra hsome
    have hin : h.start ≤ h.top + 4096 * k ∧ h.top + 4096 * k < limit := by omega
    have hw4 : l4 (h.top + 4096 * k) ≠ 0 := l4_ne_zero (hlow.trans hin.1) (by omega)
    have := (hk.mapped _ hin.1 hin.2).mp ((resolve_iff hk.sound.ok hk.root hw4).mpr hsome)
    omega
  have hneeded : tablesNeeded h.sys.vm h.thread.cr3 h.top ≤ 3 := by
    rw [tablesNeeded]
    split <;> omega
  have hflags : PageFlags (vmmFlagPresent ||| vmmFlagWritable ||| vmmFlagUser) :=
    ⟨by decide, by decide⟩
  obtain ⟨vm, new, hmap, hext, hpages⟩ := mapFreshPages_of_free hflags n hk.sound.ok hk.root htop4
    (hlow.trans htop) (by omega) habsent (by omega)
  have hcall : vmmUserSetBrk h.sys.vm h.thread newEnd =
      (true, vm, { h.thread with brkEnd := newEnd }) := by
    rw [vmmUserSetBrk_grow hk.isUser (by omega) (htarget.trans hrange), ← top, hmap]
    exact if_pos rfl
  refine hk.moved ha hne hlo hhi hcall hext.confined (fun w hw4 hw hdiff => ?_) fun w hw4 hw hsame => ?_
  · exact iff_of_true ((hpages w hw4 hw).1 (by omega)) (by omega)
  · exact (hpages w hw4 hw).2 (by omega)

lemma Kept.shrink (hshrink : alignUpU64 newEnd pageSize ≤ h.top) :
    Kept K limit h₀ (h.step (.brk newEnd)) ∧ h.FailsClean newEnd := by
  obtain ⟨hlow, ⟨htop, htop', htop4⟩, ⟨hnew, hnew', hnew4⟩, htarget⟩ := hk.ends ha hlo hhi
  have hhigh := ha.high
  obtain ⟨n, hrange⟩ : ∃ n, alignUpU64 newEnd pageSize + 4096 * n = h.top :=
    ⟨(h.top - alignUpU64 newEnd pageSize) / 4096, by omega⟩
  have hcall : vmmUserSetBrk h.sys.vm h.thread newEnd =
      (true, unmapFreePages h.thread.cr3 n h.sys.vm (alignUpU64 newEnd pageSize),
        { h.thread with brkEnd := newEnd }) := by
    rw [vmmUserSetBrk_shrink hk.isUser (htarget.symm ▸ hrange), htarget]
  have hpages := unmapFreePages_pages n hk.sound.ok hk.root hnew4 (hlow.trans hnew) (by omega)
  refine hk.moved ha hne hlo hhi hcall
    ((Extends.refl hk.sound.ok _).confined.unmapFreePages n hk.root (by omega) fun k hk' => ?_)
    (fun w hw4 hw hdiff => ?_) fun w hw4 hw hsame => ?_
  · have hpage : pageAt (alignUpU64 newEnd pageSize) k = alignUpU64 newEnd pageSize + 4096 * k := by
      change (alignUpU64 newEnd pageSize + 4096 * k) % 2 ^ 64 = _
      omega
    rw [hpage]
    exact l4_ne_zero (by omega) (by omega)
  · exact iff_of_false (not_not.mpr ((hpages w hw4 hw).1 (by omega))) (by omega)
  · exact (hpages w hw4 hw).2 (by omega)

end

lemma brk_of_full (hok : VmOk 4 h.sys.vm) (hu : h.thread.isUser = true) (hne : newEnd ≠ 0)
    (hgrow : brkTarget h.thread newEnd = h.top + 4096 * (n + 1)) (hfull : h.sys.vm.pmm.freePagesCnt = 0) :
    h.step (.brk newEnd) = h := by
  have hcall : vmmUserSetBrk h.sys.vm h.thread newEnd = (false, h.sys.vm, h.thread) := by
    rw [vmmUserSetBrk_grow hu n.succ_pos hgrow, mapFreshPages, mapFreshPage_of_full hok hfull]
    exact if_neg (Nat.succ_ne_zero n).symm
  exact (brk_eq hu hne hcall).1

lemma Kept.brk (hk : Kept K limit h₀ h) (ha : h₀.Area limit) (hok : h.BrkOk limit newEnd) :
    Kept K limit h₀ (h.step (.brk newEnd)) ∧ h.FailsClean newEnd := by
  rcases Nat.eq_zero_or_pos newEnd with rfl | hpos
  · have hsame : h.step (.brk 0) = h := by simp [step, sysBrk, hk.isUser]
    exact ⟨hsame.symm ▸ hk, failsClean_of_step_eq hsame⟩
  obtain ⟨hlo, hhi, hframes⟩ := hok.resolve_left hpos.ne'
  rcases Nat.lt_or_ge h.top (alignUpU64 newEnd pageSize) with hgrow | hshrink
  · rcases hframes with hle | hfull | hfree
    · exact absurd hle (Nat.not_le.mpr hgrow)
    · obtain ⟨_, ⟨_, _, htop4⟩, ⟨_, _, hnew4⟩, htarget⟩ := hk.ends ha hlo hhi
      obtain ⟨n, hrange⟩ : ∃ n, alignUpU64 newEnd pageSize = h.top + 4096 * (n + 1) :=
        ⟨(alignUpU64 newEnd pageSize - h.top) / 4096 - 1, by omega⟩
      have hsame := brk_of_full hk.sound.ok hk.isUser hpos.ne' (htarget.trans hrange) hfull
      exact ⟨hsame.symm ▸ hk, failsClean_of_step_eq hsame⟩
    · exact hk.grow ha hpos.ne' hlo hhi hgrow hfree
  · exact hk.shrink ha hpos.ne' hlo hhi hshrink

lemma Kept.step (hk : Kept K limit h₀ h) (ha : h₀.Area limit) {op : BrkOp} (hop : h.Ok limit op) :
    Kept K limit h₀ (h.step op) := by
  cases op with
  | brk newEnd => exact (hk.brk ha hop).1
  | alloc pages => exact { hk with sound := hk.sound.alloc pages }
  | free addr pages => exact { hk with sound := hk.sound.free hop }

lemma kept_init (hs : h.sys.Sound K) (hr : h.thread.cr3 ∈ h.sys.vm.roots)
    (hu : h.thread.isUser = true) (hempty : h.thread.brkEnd = h.thread.brkStart)
    (ha : h.Area limit) (hclear : ∀ va, h.start ≤ va → va < limit → h.resolve va = none) :
    Kept K limit h h := by
  refine ⟨⟨hempty.ge, fun va hlo hhi => ?_, fun _ _ => rfl⟩, hs, hr, hu, rfl, rfl,
    hempty.trans_le ha.le⟩
  have htop : h.top = h.start := by rw [top, start, hempty]
  exact iff_of_false (not_not.mpr (hclear va hlo hhi)) (by omega)

end BrkSys

/-! ## The first heap of a machine -/

lemma FirstSpace.resolve_eq_none {s0 : Vm} (h : FirstSpace s0 s r) (hv : l4 v ≠ 0) :
    vmmResolve s.mem r v = none := by
  have hnode : nodeAt s.mem r (tablePath v) = none := by
    by_contra hne
    obtain ⟨f, hf⟩ := Option.ne_none_iff_exists'.mp hne
    have := (h.created.nodeAt_eq (userPath_tablePath hv) hf).1
    exact absurd (congrArg List.length this) (by rw [tablePath_length]; decide)
  have hok : VmOk 4 s := h.sound.ok
  rw [MyOs.vmmResolve_eq hok h.root hv, pte, leafAt_of_none hnode]
  rfl

/-- A machine with 64 KiB of memory after `vmm_init`. -/
def roomyKernel : Vm := vmmInit (bootVm roomyBoot.mem (pmmWithFree 2))

/-- Its first thread, with the heap at the start of PML4 entry 1. -/
def roomyHeap : BrkSys where
  sys := run MemSys.step ⟨roomyKernel, []⟩ [.create]
  thread :=
    { isUser := true, cr3 := 0x206000, brkStart := 2 ^ 39, brkEnd := 2 ^ 39, mmapBase := 0 }

lemma roomyHeap_frames : roomyKernel.kernelCr3 = 0x200000 ∧ roomyKernel.handed.length = 6 ∧
    (vmmCreateUserSpace roomyKernel).1 = 0x206000 ∧ roomyHeap.sys.vm.pmm.freePagesCnt = 9 := by
  decide +kernel

lemma roomyKernel_eq : vmmInit (bootVm roomyBoot.mem (pmmWithFree 2)) = roomyKernel := rfl

lemma roomySpace : FirstSpace roomyKernel roomyHeap.sys.vm 0x206000 := by
  rw [roomyHeap, run_create]
  exact firstSpace roomyBoot_init roomyKernel_eq (by rw [roomyHeap_frames.1]; decide)
    roomyHeap_frames.2.1 roomyHeap_frames.2.2.1 (by decide)

lemma roomyHeap_area : roomyHeap.Area (2 ^ 39 + 2 ^ 30) :=
  ⟨by decide, by decide, by decide, by decide⟩

lemma roomyHeap_clear (va : ℕ) (hlo : roomyHeap.start ≤ va) (hhi : va < 2 ^ 39 + 2 ^ 30) :
    roomyHeap.resolve va = none := by
  have hstart : roomyHeap.start = 2 ^ 39 := by decide
  exact roomySpace.resolve_eq_none (l4_ne_zero (hstart ▸ hlo) (by omega))

/-- **What three calls do to an empty heap.**  `brk(0x1000)` succeeds and puts the end below the
start.  `brk(2^64 - 1)` stores its argument as the end, and returns the value that reports failure.
With four frames left, a grow by two pages reports failure and leaves one of them mapped. -/
theorem brk_breaks_heap :
    (∀ va, roomyHeap.start ≤ va → va < 2 ^ 39 + 2 ^ 30 → roomyHeap.resolve va = none) ∧
      (sysBrk roomyHeap.sys.vm roomyHeap.thread 0x1000).1 = 0x1000 ∧
      (roomyHeap.step (.brk 0x1000)).thread.brkEnd < roomyHeap.thread.brkStart ∧
      (sysBrk roomyHeap.sys.vm roomyHeap.thread (2 ^ 64 - 1)).1 = 2 ^ 64 - 1 ∧
      (roomyHeap.step (.brk (2 ^ 64 - 1))).thread.brkEnd ≠ roomyHeap.thread.brkEnd ∧
      let h := roomyHeap.step (.alloc 5)
      (sysBrk h.sys.vm h.thread (2 ^ 39 + 0x2000)).1 = 2 ^ 64 - 1 ∧ h.resolve (2 ^ 39) = none ∧
        (h.step (.brk (2 ^ 39 + 0x2000))).resolve (2 ^ 39) ≠ none :=
  ⟨roomyHeap_clear, by decide +kernel⟩

/-! ## All runs -/

/-- **The heap is what lies below its end.**  In a system booted and run by the rules, take a user
thread with an empty heap and an area for it, up to `limit`, without a page.  After any calls of
`SYS_brk` for an end in the area, each of which finds all frames a grow may need or none at all, and
any allocations of others: the end is not below the start, exactly the pages below the end are
mapped, nothing below the heap has changed; and a further such call that reports failure has no
effect. -/
theorem brk_keeps_heap {fuel : ℕ} {b : Boot} {p₀ p : Pmm}
    (hboot : pmmInit fuel b p₀ = some (p, true)) {s₀ : Vm} (hinit : vmmInit (bootVm b.mem p) = s₀)
    (hpml4 : s₀.kernelCr3 ≠ 0) {ops : List MemOp}
    (hops : Admissible (MemSys.Ok (kernelTables s₀)) MemSys.step ⟨s₀, []⟩ ops) {h₀ : BrkSys}
    (hsys : h₀.sys = run MemSys.step ⟨s₀, []⟩ ops) (ht : h₀.thread.cr3 ∈ h₀.sys.vm.roots)
    (hu : h₀.thread.isUser = true) (hempty : h₀.thread.brkEnd = h₀.thread.brkStart) {limit : ℕ}
    (ha : h₀.Area limit) (hclear : ∀ va, h₀.start ≤ va → va < limit → h₀.resolve va = none)
    {calls : List BrkOp} (hcalls : Admissible (BrkSys.Ok limit) BrkSys.step h₀ calls) :
    let h := run BrkSys.step h₀ calls
    BrkSys.InOrder limit h₀ h ∧ ∀ newEnd, h.BrkOk limit newEnd → h.FailsClean newEnd := by
  have hsound : h₀.sys.Sound (kernelTables s₀) := by
    rw [hsys]
    exact (vmmInit_sound hboot hinit hpml4).run hops
  have hkept : BrkSys.Kept (kernelTables s₀) limit h₀ (run BrkSys.step h₀ calls) :=
    run_invariant (I := BrkSys.Kept (kernelTables s₀) limit h₀) (fun _ _ hk hop => BrkSys.Kept.step hk ha hop)
      (BrkSys.kept_init hsound ht hu hempty ha hclear) hcalls
  exact ⟨hkept.toInOrder, fun newEnd hok => (hkept.brk ha hok).2⟩

/-- The first thread grows its heap by two pages. -/
theorem brk_keeps_heap_two_pages :
    let h := roomyHeap.step (.brk (2 ^ 39 + 5000))
    h.thread.brkStart ≤ h.thread.brkEnd ∧
      ∀ va, h.start ≤ va → va < 2 ^ 39 + 2 ^ 30 → (h.resolve va ≠ none ↔ va < h.top) := by
  have hpml4 : roomyKernel.kernelCr3 ≠ 0 := by
    rw [roomyHeap_frames.1]
    decide
  have hcreate : Admissible (MemSys.Ok (kernelTables roomyKernel)) MemSys.step ⟨roomyKernel, []⟩
      [.create] := ⟨trivial, trivial⟩
  have hsys : roomyHeap.sys = run MemSys.step ⟨roomyKernel, []⟩ [.create] := rfl
  have hgrow : Admissible (BrkSys.Ok (2 ^ 39 + 2 ^ 30)) BrkSys.step roomyHeap
      [.brk (2 ^ 39 + 5000)] := by
    refine ⟨Or.inr ⟨by decide, by decide, Or.inr (Or.inr ?_)⟩, trivial⟩
    rw [roomyHeap_frames.2.2.2]
    decide
  obtain ⟨hord, _⟩ := brk_keeps_heap roomyBoot_init roomyKernel_eq hpml4 hcreate hsys
    roomySpace.root rfl rfl roomyHeap_area roomyHeap_clear hgrow
  exact ⟨hord.ordered, hord.mapped⟩

end MyOs
