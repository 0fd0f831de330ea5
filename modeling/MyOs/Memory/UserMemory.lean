import MyOs.Memory.UserBytes

/-!
# Memory calls of user threads

`SYS_brk` (`vmm_user_set_brk` in `src/vmm.c`) and `SYS_mmap` (`mmap_map_anonymous` in
`src/syscall.c`).  Both visit the pages of a range one by one.  The user chooses the range, and
nothing keeps it out of PML4 entry 0, where the walk meets the kernel's identity map and takes
2 MiB pages for page tables.

`Confined` says that a call wrote only to frames it was handed and to the tables of its own space;
`MemCall.confined` proves it for the calls that come to no page under entry 0.
-/

namespace MyOs

open Lib

/-- The loop that maps fresh zeroed frames to `n` pages from `va` on; it ends early when a page
cannot be mapped.  With the number of pages that were mapped. -/
def mapFreshPages (cr3 flags : ℕ) : (n : ℕ) → Vm → (va : ℕ) → ℕ × Vm
  | 0, s, _ => (0, s)
  | n + 1, s, va =>
    match mapFreshPage (fun _ => 0) s cr3 va flags with
    | (false, s) => (0, s)
    | (true, s) =>
      let r := mapFreshPages cr3 flags n s ((va + pageSize) % 2 ^ 64)
      (r.1 + 1, r.2)

/-- The loop that unmaps `n` pages from `va` on and frees their frames. -/
def unmapFreePages (cr3 : ℕ) : (n : ℕ) → Vm → (va : ℕ) → Vm
  | 0, s, _ => s
  | n + 1, s, va => unmapFreePages cr3 n (unmapFreePage s cr3 va) ((va + pageSize) % 2 ^ 64)

/-- The fields of `thread_t` that describe a user thread's memory. -/
structure UserThread where
  isUser : Bool
  cr3 : ℕ
  brkStart : ℕ
  brkEnd : ℕ
  mmapBase : ℕ

/-- The end of the heap that `vmm_user_set_brk` aims at. -/
def brkTarget (t : UserThread) (newEnd : ℕ) : ℕ :=
  let start := alignUpU64 t.brkStart pageSize
  let newAligned := alignUpU64 newEnd pageSize
  if newAligned < start then start else newAligned

def vmmUserSetBrk (s : Vm) (t : UserThread) (newEnd : ℕ) : Bool × Vm × UserThread :=
  if !t.isUser then (false, s, t)
  else
    let newAligned := brkTarget t newEnd
    let cur := alignUpU64 t.brkEnd pageSize
    if newAligned > cur then
      let pages := (newAligned - cur) / pageSize
      let r := mapFreshPages t.cr3 (vmmFlagPresent ||| vmmFlagWritable ||| vmmFlagUser) pages s cur
      if r.1 = pages then (true, r.2, { t with brkEnd := newEnd }) else (false, r.2, t)
    else
      -- nothing is unmapped if the end does not move
      (true, unmapFreePages t.cr3 ((cur - newAligned) / pageSize) s newAligned,
        { t with brkEnd := newEnd })

/-- The first page of an `mmap`. -/
def mmapBaseOf (t : UserThread) (addr : ℕ) : ℕ :=
  if addr = 0 then alignUpU64 t.mmapBase pageSize else alignDownU64 addr pageSize

/-- The page flags of an `mmap`. -/
def mmapFlags (prot : ℕ) : ℕ :=
  vmmFlagPresent ||| vmmFlagUser ||| (if prot &&& 0x2 = 0 then 0 else vmmFlagWritable) |||
    (if prot &&& 0x4 = 0 then vmmFlagNoexec else 0)

/-- `mmap_map_anonymous`; `2 ^ 64 - 1` is the error value. -/
def mmapMapAnonymous (s : Vm) (t : UserThread) (addr len prot : ℕ) : ℕ × Vm × UserThread :=
  if !t.isUser || decide (len = 0) then (2 ^ 64 - 1, s, t)
  else
    let size := alignUpU64 len pageSize
    let base := mmapBaseOf t addr
    let r := mapFreshPages t.cr3 (mmapFlags prot) (size / pageSize) s base
    if r.1 * pageSize ≠ size then (2 ^ 64 - 1, unmapFreePages t.cr3 r.1 r.2 base, t)
    else (base, r.2, if addr = 0 then { t with mmapBase := (base + size) % 2 ^ 64 } else t)

def sysBrk (s : Vm) (t : UserThread) (newEnd : ℕ) : ℕ × Vm × UserThread :=
  if !t.isUser then (2 ^ 64 - 1, s, t)
  else if newEnd = 0 then (t.brkEnd, s, t)
  else
    match vmmUserSetBrk s t newEnd with
    | (false, s, t) => (2 ^ 64 - 1, s, t)
    | (true, s, t) => (t.brkEnd, s, t)

def sysMmap (s : Vm) (t : UserThread) (addr len prot : ℕ) : ℕ × Vm × UserThread :=
  if !t.isUser then (2 ^ 64 - 1, s, t) else mmapMapAnonymous s t addr len prot

/-! ## What a call may write -/

variable {r : ℕ} {new : List ℕ} {s s' s'' : Vm}
variable {f v : ℕ} {content : ℕ → UInt8} {t : UserThread}

/-- The call that led from `s` to `s'` was handed the frames `new`; it wrote to these and to entries
of tables of the space `r`, entry 0 of the PML4 excepted, and took away only frames of `r`. -/
structure Confined (r : ℕ) (new : List ℕ) (s s' : Vm) : Prop where
  ok : VmOk 4 s'
  spaces : s'.spaces = s.spaces
  kernel : s'.kernelCr3 = s.kernelCr3
  handed : s'.handed = new ++ s.handed
  clear : ∀ f ∈ new, f % 4096 = 0 ∧ bitTest s.pmm (f / 4096) = false
  used : ∀ i, bitTest s.pmm i = true → bitTest s'.pmm i = true ∨
    ∃ p, UserPath 4 p ∧ nodeAt s.mem r p = some (i * 4096)
  linked : ∀ r' ∈ s.roots, ∀ p f, UserPath 4 p → nodeAt s'.mem r' p = some f →
    nodeAt s.mem r' p = some f ∨ (r' = r ∧ f ∈ new)
  mem : ∀ a, s'.mem a ≠ s.mem a → a / 4096 * 4096 ∈ new ∨
    ∃ (p : List Idx) (i : Idx), UserPath 4 (p ++ [i]) ∧
      nodeAt s.mem r p = some (a / 4096 * 4096) ∧ a % 4096 / 8 = i

lemma Extends.confined (h : Extends 4 r new s s') : Confined r new s s' where
  ok := h.ok
  spaces := h.spaces
  kernel := h.kernel
  handed := h.handed
  clear := h.clear
  used i hi := Or.inl (h.used i hi)
  linked := h.linked
  mem := h.mem

lemma Confined.roots (h : Confined r new s s') : s'.roots = s.roots := by
  rw [Vm.roots, Vm.roots, h.spaces]

lemma Confined.unmapped (h : Confined r new s s') (hr : r ∈ s.roots) (hv : l4 v ≠ 0)
    (hu : Unmapped r v s' s'' f) : Confined r new s s'' where
  ok := hu.ok
  spaces := hu.spaces.trans h.spaces
  kernel := hu.kernel.trans h.kernel
  handed := hu.log.trans h.handed
  clear := h.clear
  used i hi := by
    rcases h.used i hi with hset | howned
    · by_cases hfi : f / 4096 = i
      · -- the frame that was freed: of the space before the call, or handed out in it
        have hpath := (userPath_tablePath hv).snoc (tablePath_length v) (l1 v)
        have hal := (h.ok.frames r (h.roots ▸ hr) _ f hpath hu.node).aligned
        rcases h.linked r hr _ f hpath hu.node with hold | ⟨_, hnew⟩
        · exact Or.inr ⟨_, hpath, by rw [hold, show i * 4096 = f by omega]⟩
        · exact absurd hfi.symm (used_ne_clear hi (h.clear f hnew).2)
      · left
        rw [hu.bits, hset, decide_eq_false hfi]
        rfl
    · exact Or.inr howned
  linked r' hr' p n hp hn := by
    obtain ⟨hcut, hkeep⟩ := hu.nodes r' (h.roots ▸ hr') p hp
    by_cases hpv : r' = r ∧ p = tablePath v ++ [l1 v]
    · rw [hcut hpv] at hn
      exact absurd hn (by simp)
    · rw [hkeep hpv] at hn
      exact h.linked r' hr' p n hp hn
  mem a ha := by
    by_cases hfirst : s'.mem a = s.mem a
    · rw [← hfirst] at ha
      obtain ⟨hpt, hi⟩ := hu.mem a ha
      have hpath := userPath_tablePath hv
      rcases h.linked r hr _ _ (hpath.mono (by decide)) hpt with hold | ⟨_, hnew⟩
      · exact Or.inr ⟨_, _, hpath.snoc (tablePath_length v) (l1 v), hold, hi⟩
      · exact Or.inl hnew
    · exact h.mem a hfirst

/-! ## The two loops -/

variable {flags va n : ℕ} {s₁ : Vm}

lemma mapFreshPage_of_full (h : VmOk 4 s) (hfull : s.pmm.freePagesCnt = 0) (content : ℕ → UInt8)
    (v : ℕ) : mapFreshPage content s r v flags = (false, s) := by
  rcases s.allocPage_cases h.zero with heq | ⟨f, p', hf, _⟩
  · simp only [mapFreshPage, heq, if_true]
  · have hclear := clearCount_setBit hf.tracked hf.clear
    have hcount := h.count
    rw [CountExact, hfull] at hcount
    omega

/-- The page at index `k` of a range that starts at `va`. -/
abbrev pageAt (va k : ℕ) : ℕ := (va + pageSize * k) % 2 ^ 64

lemma pageAt_succ (va k : ℕ) : pageAt ((va + pageSize) % 2 ^ 64) k = pageAt va (k + 1) := by
  simp only [pageAt, pageSize]
  omega

/-- The pages of a range outside PML4 entry 0 are all different: between two addresses of one page
number the range would pass page 0. -/
lemma pageNum_injOn {virt n : ℕ} (huser : ∀ i < n, l4 (pageAt virt i) ≠ 0) {i j : ℕ} (hij : i < j)
    (hj : j < n) : pageNum (pageAt virt i) ≠ pageNum (pageAt virt j) := by
  have hnum : ∀ i, pageNum (pageAt virt i) = (virt / 4096 + i) % 2 ^ 36 := by
    intro i
    simp only [pageNum, pageAt, pageSize]
    omega
  intro heq
  rw [hnum, hnum] at heq
  have hzero : pageNum (pageAt virt (i + (2 ^ 36 - (virt / 4096 + i) % 2 ^ 36))) = 0 := by
    rw [hnum]
    omega
  refine huser (i + (2 ^ 36 - (virt / 4096 + i) % 2 ^ 36)) (by omega) (Fin.ext ?_)
  simp only [l4, Fin.val_ofNat, Fin.val_zero]
  simp only [pageNum] at hzero
  omega

/-- The pages of the range have been mapped to fresh zeroed frames, and no others. -/
structure PagesFresh (r va flags n : ℕ) (s s' : Vm) : Prop where
  fresh : ∀ i < n, ∃ f, MappedTo r (pageAt va i) flags (fun _ => 0) s s' f
  others : ∀ r' ∈ s.roots, ∀ w, l4 w ≠ 0 →
    (r' = r → ∀ i < n, pageNum w ≠ pageNum (pageAt va i)) → pte s'.mem r' w = pte s.mem r' w

lemma PagesFresh.zero (r va flags : ℕ) (s : Vm) : PagesFresh r va flags 0 s s :=
  ⟨fun i hi => absurd hi (Nat.not_lt_zero i), fun _ _ _ _ _ => rfl⟩

lemma MappedTo.extended (hm : MappedTo r v flags content s s₁ f) (hok : VmOk 4 s₁) (hr : r ∈ s₁.roots)
    (hv : l4 v ≠ 0) (he : Extends 4 r new s₁ s') (hpte : pte s'.mem r v = pte s₁.mem r v) :
    MappedTo r v flags content s s' f where
  absent := hm.absent
  clear := hm.clear
  frame := (he.ok.frames r (he.roots ▸ hr) _ f (userPath_pagePath hv)
    (he.keep r hr _ f (userPath_pagePath hv) hm.node))
  node := he.keep r hr _ f (userPath_pagePath hv) hm.node
  entry := hpte.trans hm.entry
  content x hx := (he.frame_keep hok hr hv hm.node hx).trans (hm.content x hx)

lemma MappedTo.earlier (hm : MappedTo r v flags content s₁ s' f) (he : Extends 4 r new s s₁)
    (hpte : pte s₁.mem r v = pte s.mem r v) : MappedTo r v flags content s s' f where
  absent := hpte.symm.trans hm.absent
  clear := by
    by_contra hset
    have hclear := hm.clear
    rw [he.used _ (Bool.eq_true_of_not_eq_false hset)] at hclear
    cases hclear
  frame := hm.frame
  node := hm.node
  entry := hm.entry
  content := hm.content

lemma PagesFresh.cons (hr : r ∈ s.roots) (hva : va < 2 ^ 64) (huser : ∀ i < n + 1, l4 (pageAt va i) ≠ 0)
    {new' : List ℕ} (he : Extends 4 r new s s₁) (hkept : PtesKept r va s s₁)
    (hm : MappedTo r va flags (fun _ => 0) s s₁ f) (he' : Extends 4 r new' s₁ s')
    (hrest : PagesFresh r ((va + pageSize) % 2 ^ 64) flags n s₁ s') :
    PagesFresh r va flags (n + 1) s s' := by
  have hfirst : pageAt va 0 = va := by
    rw [pageAt, Nat.mul_zero, Nat.add_zero, Nat.mod_eq_of_lt hva]
  have hr1 : r ∈ s₁.roots := he.roots ▸ hr
  have hlater : ∀ i < n, pageNum va ≠ pageNum (pageAt va (i + 1)) := by
    intro i hi
    have hne := pageNum_injOn huser (Nat.succ_pos i) (Nat.succ_lt_succ hi)
    rwa [hfirst] at hne
  refine ⟨fun i hi => ?_, fun r' hr' w hw hne => ?_⟩
  · cases i with
    | zero =>
      have hv : l4 va ≠ 0 := hfirst ▸ huser 0 (Nat.succ_pos n)
      rw [hfirst]
      refine ⟨f, hm.extended he.ok hr1 hv he' (hrest.others r hr1 va hv fun _ i hi => ?_)⟩
      rw [pageAt_succ]
      exact hlater i hi
    | succ i =>
      obtain ⟨g, hg⟩ := hrest.fresh i (by omega)
      rw [pageAt_succ] at hg
      exact ⟨g, hg.earlier he (hkept r hr _ (huser _ hi) fun h => hlater i (by omega) h.2.symm)⟩
  · rw [hrest.others r' (he.roots ▸ hr') w hw fun hrr i hi => ?_]
    · refine hkept r' hr' w hw fun h => hne h.1 0 (Nat.succ_pos n) ?_
      rw [hfirst]
      exact h.2
    · rw [pageAt_succ]
      exact hne hrr (i + 1) (by omega)

/-- The loop that maps comes to the page at index `k`: all pages before it were mapped, and there is a
free frame left for it. -/
def PageReached (cr3 flags : ℕ) (s : Vm) (va k : ℕ) : Prop :=
  (mapFreshPages cr3 flags k s va).1 = k ∧ 0 < (mapFreshPages cr3 flags k s va).2.pmm.freePagesCnt

/-- No page that the loop comes to lies under PML4 entry 0. -/
def ReachedOutsideKernel (cr3 flags n : ℕ) (s : Vm) (va : ℕ) : Prop :=
  ∀ k < n, PageReached cr3 flags s va k → l4 (pageAt va k) ≠ 0

lemma ReachedOutsideKernel.tail (hfirst : mapFreshPage (fun _ => 0) s r va flags = (true, s₁))
    (h : ReachedOutsideKernel r flags (n + 1) s va) :
    ReachedOutsideKernel r flags n s₁ ((va + pageSize) % 2 ^ 64) := by
  rintro k hk ⟨hmapped, hfree⟩
  rw [pageAt_succ]
  refine h (k + 1) (Nat.succ_lt_succ hk) ⟨?_, ?_⟩
  · simp only [mapFreshPages, hfirst, hmapped]
  · simpa only [mapFreshPages, hfirst] using hfree

/-- **The loop that maps**, wherever it ends. -/
lemma mapFreshPages_spec (hflags : PageFlags flags) (n : ℕ) :
    ∀ {s : Vm} {va : ℕ}, VmOk 4 s → r ∈ s.roots → va < 2 ^ 64 →
      ReachedOutsideKernel r flags n s va →
      ∃ k s' new, mapFreshPages r flags n s va = (k, s') ∧ k ≤ n ∧
        (∀ i < k, l4 (pageAt va i) ≠ 0) ∧ Extends 4 r new s s' ∧ PagesFresh r va flags k s s' := by
  induction n with
  | zero =>
    intro s va h hr _ _
    exact ⟨0, s, [], rfl, le_refl _, fun i hi => absurd hi (Nat.not_lt_zero i), Extends.refl h r,
      .zero r va flags s⟩
  | succ n ih =>
    intro s va h hr hva hpages
    rcases Nat.eq_zero_or_pos s.pmm.freePagesCnt with hfull | hfree
    · refine ⟨0, s, [], ?_, Nat.zero_le _, fun i hi => absurd hi (Nat.not_lt_zero i),
        Extends.refl h r, .zero r va flags s⟩
      simp only [mapFreshPages, mapFreshPage_of_full h hfull]
    have hv0 : l4 (pageAt va 0) ≠ 0 := hpages 0 (Nat.succ_pos n) ⟨rfl, hfree⟩
    have hv : l4 va ≠ 0 := by
      rwa [pageAt, Nat.mul_zero, Nat.add_zero, Nat.mod_eq_of_lt hva] at hv0
    obtain ⟨b, s₁, new1, heq, he1, hkept, hfail, hsucc⟩ :=
      mapFreshPage_spec h hr hv hflags fun _ => 0
    cases b with
    | false =>
      refine ⟨0, s₁, new1, ?_, Nat.zero_le _, fun i hi => absurd hi (Nat.not_lt_zero i), he1,
        fun i hi => absurd hi (Nat.not_lt_zero i), fun r' hr' w hw _ => ?_⟩
      · simp only [mapFreshPages, heq]
      · by_cases hpage : r' = r ∧ pageNum w = pageNum va
        · rw [hpage.1, pte_congr _ r hpage.2, pte_congr _ r hpage.2]
          exact hfail rfl
        · exact hkept r' hr' w hw hpage
    | true =>
      obtain ⟨f, hm⟩ := hsucc rfl
      obtain ⟨k, s2, new2, heq2, hk, huser, he2, hrest⟩ :=
        ih he1.ok (he1.roots ▸ hr) (Nat.mod_lt (va + pageSize) (by decide)) (hpages.tail heq)
      have huser' : ∀ i < k + 1, l4 (pageAt va i) ≠ 0 := by
        intro i hi
        cases i with
        | zero => exact hv0
        | succ i =>
          rw [← pageAt_succ]
          exact huser i (Nat.lt_of_succ_lt_succ hi)
      refine ⟨k + 1, s2, new2 ++ new1, ?_, by omega, huser', he1.trans hr he2,
        .cons hr hva huser' he1 hkept hm he2 hrest⟩
      simp only [mapFreshPages, heq, heq2]

lemma Confined.unmapFreePages (n : ℕ) :
    ∀ {s₁ : Vm} {va : ℕ}, Confined r new s s₁ → r ∈ s.roots → va < 2 ^ 64 →
      (∀ k, k < n → l4 (pageAt va k) ≠ 0) → Confined r new s (unmapFreePages r n s₁ va) := by
  induction n with
  | zero => exact fun h _ _ _ => h
  | succ n ih =>
    intro s₁ va h hr hva hpages
    have hv : l4 va ≠ 0 := by
      have := hpages 0 (by omega)
      rwa [pageAt, Nat.mul_zero, Nat.add_zero, Nat.mod_eq_of_lt hva] at this
    have hnext : Confined r new s (unmapFreePage s₁ r va) := by
      rcases unmapFreePage_spec h.ok (h.roots ▸ hr) hv with ⟨_, heq⟩ | ⟨f, hu⟩
      · rwa [heq]
      · exact h.unmapped hr hv hu
    refine ih hnext hr (Nat.mod_lt (va + pageSize) (by decide)) fun k hk => ?_
    rw [pageAt_succ]
    exact hpages (k + 1) (by omega)

/-! ## The two calls -/

/-- No page that `SYS_mmap` comes to lies under PML4 entry 0. -/
def MmapOutsideKernel (s : Vm) (t : UserThread) (addr len prot : ℕ) : Prop :=
  ReachedOutsideKernel t.cr3 (mmapFlags prot) (alignUpU64 len pageSize / pageSize) s
    (mmapBaseOf t addr)

/-- No page that `SYS_brk` comes to lies under PML4 entry 0. -/
def BrkOutsideKernel (s : Vm) (t : UserThread) (newEnd : ℕ) : Prop :=
  newEnd ≠ 0 →
    ReachedOutsideKernel t.cr3 (vmmFlagPresent ||| vmmFlagWritable ||| vmmFlagUser)
      ((brkTarget t newEnd - alignUpU64 t.brkEnd pageSize) / pageSize) s
      (alignUpU64 t.brkEnd pageSize) ∧
    (∀ k, k < (alignUpU64 t.brkEnd pageSize - brkTarget t newEnd) / pageSize →
      l4 (pageAt (brkTarget t newEnd) k) ≠ 0)

lemma alignUpU64_page_lt (v : ℕ) : alignUpU64 v pageSize < 2 ^ 64 := by
  rw [alignUpU64_page]
  omega

lemma mmapBaseOf_lt (t : UserThread) (addr : ℕ) : mmapBaseOf t addr < 2 ^ 64 := by
  rw [mmapBaseOf, alignDownU64_page]
  have := alignUpU64_page_lt t.mmapBase
  split_ifs <;> omega

lemma brkTarget_lt (t : UserThread) (newEnd : ℕ) : brkTarget t newEnd < 2 ^ 64 := by
  rw [brkTarget]
  split_ifs
  · exact alignUpU64_page_lt t.brkStart
  · exact alignUpU64_page_lt newEnd

lemma pageFlags_mmapFlags (prot : ℕ) : PageFlags (mmapFlags prot) := by
  unfold mmapFlags
  split_ifs <;> exact ⟨by decide, by decide⟩

lemma mmapMapAnonymous_confined {addr len : ℕ} (prot : ℕ) (h : VmOk 4 s) (hr : t.cr3 ∈ s.roots)
    (hpages : MmapOutsideKernel s t addr len prot) :
    ∃ new, Confined t.cr3 new s (mmapMapAnonymous s t addr len prot).2.1 := by
  unfold mmapMapAnonymous
  split
  · exact ⟨[], (Extends.refl h _).confined⟩
  obtain ⟨k, s', new, heq, hk, huser, he, _⟩ :=
    mapFreshPages_spec (pageFlags_mmapFlags prot) _ h hr (mmapBaseOf_lt t addr) hpages
  refine ⟨new, ?_⟩
  simp only [heq]
  split
  · exact he.confined.unmapFreePages k hr (mmapBaseOf_lt t addr) huser
  · exact he.confined

lemma vmmUserSetBrk_confined {newEnd : ℕ} (h : VmOk 4 s) (hr : t.cr3 ∈ s.roots) (hne : newEnd ≠ 0)
    (hpages : BrkOutsideKernel s t newEnd) :
    ∃ new, Confined t.cr3 new s (vmmUserSetBrk s t newEnd).2.1 := by
  obtain ⟨hgrow, hshrink⟩ := hpages hne
  unfold vmmUserSetBrk
  split
  · exact ⟨[], (Extends.refl h _).confined⟩
  dsimp only
  split
  · have hflags : PageFlags (vmmFlagPresent ||| vmmFlagWritable ||| vmmFlagUser) :=
      ⟨by decide, by decide⟩
    obtain ⟨k, s', new, heq, _, _, he, _⟩ :=
      mapFreshPages_spec hflags _ h hr (alignUpU64_page_lt t.brkEnd) hgrow
    refine ⟨new, ?_⟩
    rw [heq]
    split
    · exact he.confined
    · exact he.confined
  · exact ⟨[], (Extends.refl h _).confined.unmapFreePages _ hr (brkTarget_lt t newEnd) hshrink⟩

/-- The two system calls. -/
inductive MemCall
  | mmap (addr len prot : ℕ)
  | brk (newEnd : ℕ)

/-- The call on behalf of the thread `t`: the value in `rax`, and what became of memory and of the
thread. -/
def MemCall.exec (s : Vm) (t : UserThread) : MemCall → ℕ × Vm × UserThread
  | .mmap addr len prot => sysMmap s t addr len prot
  | .brk newEnd => sysBrk s t newEnd

/-- No page the call comes to lies under PML4 entry 0. -/
def MemCall.OutsideKernel (s : Vm) (t : UserThread) : MemCall → Prop
  | .mmap addr len prot => MmapOutsideKernel s t addr len prot
  | .brk newEnd => BrkOutsideKernel s t newEnd

/-- **A call that stays out of PML4 entry 0 is confined** to its frames and its tables. -/
theorem MemCall.confined {c : MemCall} (h : VmOk 4 s) (hr : t.cr3 ∈ s.roots) (hc : c.OutsideKernel s t) :
    ∃ new, Confined t.cr3 new s (c.exec s t).2.1 := by
  have hrefl : ∃ new, Confined t.cr3 new s s := ⟨[], (Extends.refl h _).confined⟩
  cases c with
  | mmap addr len prot =>
    simp only [exec, sysMmap]
    split
    · exact hrefl
    · exact mmapMapAnonymous_confined prot h hr hc
  | brk newEnd =>
    simp only [exec, sysBrk]
    split
    · exact hrefl
    split
    · exact hrefl
    rename_i hne
    obtain ⟨new, hconf⟩ := vmmUserSetBrk_confined h hr hne hc
    refine ⟨new, ?_⟩
    rcases hres : vmmUserSetBrk s t newEnd with ⟨b, s', t'⟩
    rw [hres] at hconf
    cases b <;> exact hconf

end MyOs
