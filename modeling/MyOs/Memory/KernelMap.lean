import MyOs.Memory.SpaceRegistry
import MyOs.Memory.Teardown
import MyOs.Memory.UserMemory

/-!
# The kernel's identity map under user spaces

`vmm_init` (`src/vmm.c`) builds the kernel's PML4, whose entry 0 leads to an identity map of 2 MiB
pages.  Every user space shares that entry.  `MemSys` is the memory of the running system: spaces
are created, shared and released, pages mapped in them and taken away, the other clients of the
page allocator come and go, and user threads call `SYS_mmap` and `SYS_brk`.

`MemSys.Sound` is what all of this keeps: the spaces own their frames, the kernel's tables are
nobody's frames, and entry 0 of every PML4 is the kernel's.
-/

namespace MyOs

open Lib Function

/-! ## Entry 0 -/

/-- All the tables that the PML4 entry `e4` leads to are in the pages `K`. -/
structure KernelMap (K : ℕ → Prop) (m : Memory) (e4 : ℕ) : Prop where
  pdpt : e4 &&& vmmFlagPresent ≠ 0 → K ((e4 &&& vmmAddrMask) / 4096)
  pd : e4 &&& vmmFlagPresent ≠ 0 → ∀ i e3, readEntry m (e4 &&& vmmAddrMask) i = e3 →
    e3 &&& vmmFlagPresent ≠ 0 → e3 &&& vmmFlagHuge = 0 → K ((e3 &&& vmmAddrMask) / 4096)
  pt : e4 &&& vmmFlagPresent ≠ 0 → ∀ i e3, readEntry m (e4 &&& vmmAddrMask) i = e3 →
    e3 &&& vmmFlagPresent ≠ 0 → e3 &&& vmmFlagHuge = 0 →
    ∀ j e2, readEntry m (e3 &&& vmmAddrMask) j = e2 →
      e2 &&& vmmFlagPresent ≠ 0 → e2 &&& vmmFlagHuge = 0 → K ((e2 &&& vmmAddrMask) / 4096)

variable {K : ℕ → Prop} {m m' : Memory} {e4 : ℕ}
variable {r : ℕ} {vm : Vm}

lemma and_vmmAddrMask_aligned (x : ℕ) : (x &&& vmmAddrMask) % 4096 = 0 := by
  rw [and_vmmAddrMask]
  omega

lemma readEntry_kernel (hm : ∀ a, K (a / 4096) → m' a = m a) {e : ℕ}
    (he : K ((e &&& vmmAddrMask) / 4096)) (i : Idx) :
    readEntry m' (e &&& vmmAddrMask) i = readEntry m (e &&& vmmAddrMask) i :=
  readEntry_congr (and_vmmAddrMask_aligned e) (fun a ha => hm a (ha ▸ he)) i

lemma KernelMap.congr (h : KernelMap K m e4) (hm : ∀ a, K (a / 4096) → m' a = m a) :
    KernelMap K m' e4 where
  pdpt := h.pdpt
  pd h4 i e3 he3 := h.pd h4 i e3 (by rw [← he3, readEntry_kernel hm (h.pdpt h4)])
  pt h4 i e3 he3 h3 h3' j e2 he2 := by
    have he3' : readEntry m (e4 &&& vmmAddrMask) i = e3 := by
      rw [← he3, readEntry_kernel hm (h.pdpt h4)]
    refine h.pt h4 i e3 he3' h3 h3' j e2 ?_
    rw [← he2, readEntry_kernel hm (h.pd h4 i e3 he3' h3 h3')]

/-- **The translation under entry 0 depends on that entry and the pages `K` only.** -/
theorem KernelMap.vmmResolve_congr (h : KernelMap K m e4) (hm : ∀ a, K (a / 4096) → m' a = m a) {v : ℕ}
    (hv : l4 v = 0) (he : readEntry m (pml4FromCr3 r) 0 = e4)
    (he' : readEntry m' (pml4FromCr3 r) 0 = e4) : vmmResolve m' r v = vmmResolve m r v := by
  simp only [vmmResolve, hv, he, he']
  -- level by level: the entry read next is in a page of K
  refine ite_congr rfl (fun _ => rfl) fun h4 => ?_
  rw [readEntry_kernel hm (h.pdpt h4)]
  refine ite_congr rfl (fun _ => rfl) fun h3 => ite_congr rfl (fun _ => rfl) fun h3' => ?_
  rw [not_not] at h3'
  rw [readEntry_kernel hm (h.pd h4 (l3 v) _ rfl h3 h3')]
  refine ite_congr rfl (fun _ => rfl) fun h2 => ite_congr rfl (fun _ => rfl) fun h2' => ?_
  rw [readEntry_kernel hm (h.pt h4 (l3 v) _ rfl h3 h3' (l2 v) _ rfl h2 (not_not.mp h2'))]

/-! ## The system -/

/-- The memory of the system, with the runs of pages that other clients hold. -/
structure MemSys where
  vm : Vm
  others : List PageRun

/-- What happens to memory. -/
inductive MemOp
  | create
  | retain (cr3 : ℕ)
  | release (cr3 : ℕ)
  | map (cr3 virt flags : ℕ) (content : ℕ → UInt8)
  | unmap (cr3 virt : ℕ)
  | call (t : UserThread) (c : MemCall)
  | alloc (pages : ℕ)
  | free (addr pages : ℕ)
  | store (addr : ℕ) (byte : UInt8)

/-- One step. -/
def MemSys.step (s : MemSys) : MemOp → MemSys
  | .create => { s with vm := (vmmCreateUserSpace s.vm).2 }
  | .retain cr3 => { s with vm := vmmRetainUserSpace s.vm cr3 }
  | .release cr3 => { s with vm := vmmReleaseUserSpace s.vm cr3 }
  | .map cr3 virt flags content => { s with vm := (mapFreshPage content s.vm cr3 virt flags).2 }
  | .unmap cr3 virt => { s with vm := unmapFreePage s.vm cr3 virt }
  | .call t c => { s with vm := (c.exec s.vm t).2.1 }
  | .alloc pages =>
    let r := pmmAllocPages s.vm.pmm pages
    { vm := { s.vm with pmm := r.2 }
      others := if r.1 = 0 then s.others else (r.1, pages) :: s.others }
  | .free addr pages =>
    { vm := { s.vm with pmm := pmmFreePages s.vm.pmm addr pages }
      others := s.others.erase (addr, pages) }
  | .store addr byte => { s with vm := { s.vm with mem := storeLE s.vm.mem 1 addr byte.toNat } }

/-- The steps of a system that keeps to the rules.  `K` are the pages of the kernel's own tables.
Spaces in use are retained and released, pages mapped and unmapped outside the kernel's entry, and
nobody stores into page tables; user threads make any memory call, but one that visits a page under
PML4 entry 0. -/
def MemSys.Ok (K : ℕ → Prop) (s : MemSys) : MemOp → Prop
  | .create => True
  | .retain cr3 => cr3 ∈ s.vm.roots ∧ refsOf s.vm.spaces cr3 + 1 < 2 ^ 32
  | .release _ => True
  | .map cr3 virt flags _ => cr3 ∈ s.vm.roots ∧ l4 virt ≠ 0 ∧ PageFlags flags
  | .unmap cr3 virt => cr3 ∈ s.vm.roots ∧ l4 virt ≠ 0
  | .call t c => t.cr3 ∈ s.vm.roots ∧ c.OutsideKernel s.vm t
  | .alloc _ => True
  | .free addr pages => (addr, pages) ∈ s.others
  | .store addr _ => ¬ K (addr / 4096) ∧ ¬ SpacePage 3 s.vm (addr / 4096)

/-- The invariant of the system. -/
structure MemSys.Sound (K : ℕ → Prop) (s : MemSys) : Prop where
  ok : VmOk 4 s.vm
  live : LiveOk (fun page => K page ∨ SpacePage 4 s.vm page) s.vm.pmm s.others
  apart : ∀ page, K page → ¬ SpacePage 4 s.vm page
  one : OneSlot s.vm.spaces
  zero : K 0
  kernel : K (s.vm.kernelCr3 / 4096)
  aligned : s.vm.kernelCr3 % 4096 = 0
  pml4 : pml4FromCr3 s.vm.kernelCr3 = s.vm.kernelCr3
  shared : ∀ r ∈ s.vm.roots, readEntry s.vm.mem r 0 = readEntry s.vm.mem s.vm.kernelCr3 0
  map : KernelMap K s.vm.mem (readEntry s.vm.mem s.vm.kernelCr3 0)

variable {s s' : MemSys}

lemma mem_roots {s : Vm} : r ∈ s.roots ↔ refsOf s.spaces r ≠ 0 := by
  rw [Ne, refsOf_eq_zero]
  simp [Vm.roots]

lemma MemSys.Sound.kernel_used (h : s.Sound K) {page : ℕ} (hK : K page) :
    bitTest s.vm.pmm page = true := h.live.reserved_used page (Or.inl hK)

lemma spacePage_of_nodeAt {s : Vm} {D f : ℕ} {p : List Idx} (hr : r ∈ s.roots) (hp : UserPath D p)
    (hf : nodeAt s.mem r p = some f) : SpacePage D s (f / 4096) := ⟨r, hr, p, f, hp, hf, rfl⟩

lemma spacePage_root {s : Vm} (hr : r ∈ s.roots) : SpacePage 4 s (r / 4096) :=
  spacePage_of_nodeAt hr (p := []) ⟨Nat.zero_le _, by simp⟩ rfl

/-- The invariant carries over to a state in which the kernel's tables and entry 0 of the PML4s read
as before, if the frames of spaces are old frames of spaces or were free. -/
lemma MemSys.Sound.next (h : s.Sound K) (hok : VmOk 4 s'.vm) (hone : OneSlot s'.vm.spaces)
    (hkernel : s'.vm.kernelCr3 = s.vm.kernelCr3) (hothers : s'.others = s.others)
    (hused : ∀ i, bitTest s.vm.pmm i = true → bitTest s'.vm.pmm i = true ∨ SpacePage 4 s.vm i)
    (hpages : ∀ page, SpacePage 4 s'.vm page →
      SpacePage 4 s.vm page ∨ bitTest s.vm.pmm page = false)
    (hmem : ∀ a, K (a / 4096) → s'.vm.mem a = s.vm.mem a)
    (hroots : ∀ r ∈ s'.vm.roots,
      readEntry s'.vm.mem r 0 = readEntry s.vm.mem s.vm.kernelCr3 0) : s'.Sound K := by
  have hapart : ∀ page, K page → ¬ SpacePage 4 s'.vm page := by
    intro page hK hpage
    rcases hpages page hpage with hold | hclear
    · exact h.apart page hK hold
    · exact used_ne_clear (h.kernel_used hK) hclear rfl
  have hentry : readEntry s'.vm.mem s'.vm.kernelCr3 0 = readEntry s.vm.mem s.vm.kernelCr3 0 := by
    rw [hkernel]
    exact readEntry_congr h.aligned (fun a ha => hmem a (ha ▸ h.kernel)) 0
  have hmap := h.map.congr hmem
  rw [← hentry] at hmap
  have hkernelK : K (s'.vm.kernelCr3 / 4096) := by
    rw [hkernel]
    exact h.kernel
  have haligned : s'.vm.kernelCr3 % 4096 = 0 := by
    rw [hkernel]
    exact h.aligned
  have hpml4 : pml4FromCr3 s'.vm.kernelCr3 = s'.vm.kernelCr3 := by
    rw [hkernel]
    exact h.pml4
  refine ⟨hok, ?_, hapart, hone, h.zero, hkernelK, haligned, hpml4,
    fun r hr => (hroots r hr).trans hentry.symm, hmap⟩
  rw [hothers]
  refine h.live.reserve (hok.total.trans h.ok.total.symm) hok.count
    (fun i hi => (hused i hi).imp_right Or.inr) (Or.inl h.zero) ?_
  rintro page (hK | hpage)
  · refine ⟨(hused page (h.kernel_used hK)).resolve_right (h.apart page hK), Or.inl (Or.inl hK)⟩
  · refine ⟨?_, (hpages page hpage).imp_left Or.inr⟩
    obtain ⟨r, hr, p, f, hp, hf, rfl⟩ := hpage
    exact (hok.frames r hr p f hp hf).used

/-! ## What keeps the invariant -/

/-- What was written are frames that were free, and entries of tables of the space `r`, entry 0 of the
PML4 excepted. -/
def OwnWrites (r : ℕ) (s s' : Vm) : Prop :=
  ∀ a, s'.mem a ≠ s.mem a → bitTest s.pmm (a / 4096) = false ∨
    ∃ (p : List Idx) (i : Idx), UserPath 4 (p ++ [i]) ∧
      nodeAt s.mem r p = some (a / 4096 * 4096) ∧ a % 4096 / 8 = i

lemma Confined.ownWrites {new : List ℕ} {s s' : Vm} (hc : Confined r new s s') : OwnWrites r s s' := by
  intro a ha
  refine (hc.mem a ha).imp_left fun hnew => ?_
  have := (hc.clear _ hnew).2
  rwa [Nat.mul_div_cancel _ (by decide)] at this

lemma OwnWrites.entry_zero {s s' : Vm} (hw : OwnWrites r s s') (h : VmOk 4 s) (hr : r ∈ s.roots)
    {r' : ℕ} (hr' : r' ∈ s.roots) : readEntry s'.mem r' 0 = readEntry s.mem r' 0 := by
  have hframe := (h.root_eq hr').1
  have hal := hframe.aligned
  refine loadLE_congr fun a h1 h2 => ?_
  simp only [Fin.val_zero, Nat.mul_zero, Nat.add_zero] at h1 h2
  by_contra hne
  have hpage : a / 4096 * 4096 = r' := by omega
  rcases hw a hne with hclear | ⟨p, i, hp, hnode, hi⟩
  · exact used_ne_clear hframe.used hclear (by omega)
  · rw [hpage] at hnode
    obtain ⟨_, hnil⟩ := h.unshared hr hr' hp.closed ⟨Nat.zero_le _, by simp⟩ hnode
      (rfl : nodeAt s.mem r' [] = some r')
    subst hnil
    refine hp.2 (congrArg some (Fin.ext ?_))
    rw [← hi]
    simp only [Fin.val_zero]
    omega

section

variable (h : s.Sound K)
include h

lemma MemSys.Sound.kernel_kept (hr : r ∈ s.vm.roots) (hw : OwnWrites r s.vm vm) (a : ℕ)
    (hK : K (a / 4096)) : vm.mem a = s.vm.mem a := by
  by_contra hne
  rcases hw a hne with hclear | ⟨p, i, hp, hnode, _⟩
  · exact used_ne_clear (h.kernel_used hK) hclear rfl
  · have := spacePage_of_nodeAt hr hp.closed hnode
    rw [Nat.mul_div_cancel _ (by decide)] at this
    exact h.apart _ hK this

lemma MemSys.Sound.confined {new : List ℕ} (hr : r ∈ s.vm.roots) (hc : Confined r new s.vm vm) :
    Sound K ⟨vm, s.others⟩ := by
  have hroots := hc.roots
  refine h.next hc.ok (hc.spaces.symm ▸ h.one) hc.kernel rfl (fun i hi => ?_) ?_
    (h.kernel_kept hr hc.ownWrites) fun r' hr' => ?_
  · refine (hc.used i hi).imp_right fun ⟨p, hp, hn⟩ => ?_
    have := spacePage_of_nodeAt hr hp hn
    rwa [Nat.mul_div_cancel _ (by decide)] at this
  · rintro page ⟨r', hr', p, f, hp, hf, rfl⟩
    rw [show vm.roots = _ from hroots] at hr'
    rcases hc.linked r' hr' p f hp hf with hold | ⟨_, hnew⟩
    · exact Or.inl (spacePage_of_nodeAt hr' hp hold)
    · exact Or.inr (hc.clear f hnew).2
  · rw [show vm.roots = _ from hroots] at hr'
    exact (hc.ownWrites.entry_zero h.ok hr hr').trans (h.shared r' hr')

lemma MemSys.Sound.resolve_kept (hr : r ∈ s.vm.roots) (hw : OwnWrites r s.vm vm) {r' : ℕ}
    (hr' : r' ∈ s.vm.roots ∨ r' = s.vm.kernelCr3) {v : ℕ} (hv : l4 v = 0) :
    vmmResolve vm.mem r' v = vmmResolve s.vm.mem r' v := by
  have hkeep := h.kernel_kept hr hw
  have hentry : readEntry s.vm.mem (pml4FromCr3 r') 0 = readEntry s.vm.mem s.vm.kernelCr3 0 ∧
      readEntry vm.mem (pml4FromCr3 r') 0 = readEntry s.vm.mem s.vm.kernelCr3 0 := by
    rcases hr' with hr' | rfl
    · rw [(h.ok.root_eq hr').2]
      exact ⟨h.shared r' hr', (hw.entry_zero h.ok hr hr').trans (h.shared r' hr')⟩
    · rw [h.pml4]
      exact ⟨rfl, readEntry_congr h.aligned (fun a ha => hkeep a (ha ▸ h.kernel)) 0⟩
  exact h.map.vmmResolve_congr hkeep hv hentry.1 hentry.2

lemma MemSys.Sound.sameTables (hsame : SameTables s.vm vm) (hok : VmOk 4 vm)
    (hspaces : vm.spaces = s.vm.spaces) (hkernel : vm.kernelCr3 = s.vm.kernelCr3)
    (hused : ∀ i, bitTest s.vm.pmm i = true → bitTest vm.pmm i = true)
    (hmem : ∀ a, K (a / 4096) → vm.mem a = s.vm.mem a) : Sound K ⟨vm, s.others⟩ := by
  have hroots : vm.roots = s.vm.roots := by rw [Vm.roots, Vm.roots, hspaces]
  refine h.next hok (hspaces.symm ▸ h.one) hkernel rfl (fun i hi => Or.inl (hused i hi)) ?_ hmem
    fun r hr => ?_
  · rintro page ⟨r, hr, p, f, hp, hf, rfl⟩
    rw [show vm.roots = _ from hroots] at hr
    exact Or.inl (spacePage_of_nodeAt hr hp ((nodeAt_of_agree (hsame r hr) hp).symm.trans hf))
  · rw [show vm.roots = _ from hroots] at hr
    exact (hsame r hr [] r ⟨Nat.zero_le _, by simp⟩ rfl 0).trans (h.shared r hr)

lemma MemSys.Sound.create : (s.step .create).Sound K := by
  rcases vmmCreateUserSpace_spec h.ok.zero with
    ⟨vm, heq, hspaces, hkernel, htotal, hcount, hbits, hmem⟩ | ⟨f, vm, heq, hc⟩
  · have hstep : s.step .create = ⟨vm, s.others⟩ := by simp only [step, heq]
    have hroots : vm.roots = s.vm.roots := by rw [Vm.roots, Vm.roots, hspaces]
    have hsame : SameTables s.vm vm :=
      h.ok.sameTables (by decide) fun r hr p n hp hn a ha => hmem a
        (ha ▸ (h.ok.frames r hr p n (hp.mono (by decide)) hn).used)
    have hok : VmOk 4 vm :=
      h.ok.of_sameTables (by decide) (le_refl 4) hsame hroots.le (hcount h.ok.count)
        (htotal.trans h.ok.total) ((hbits 0).trans h.ok.zero) fun r hr p f hp hf =>
          (hbits _).trans (h.ok.frames r (hroots ▸ hr) p f hp hf).used
    rw [hstep]
    exact h.sameTables hsame hok hspaces hkernel (fun i hi => (hbits i).trans hi)
      fun a hK => hmem a (h.kernel_used hK)
  · have hstep : s.step .create = ⟨vm, s.others⟩ := by simp only [step, heq]
    have hf := hc.handed
    have hsame := hc.sameTables h.ok (by decide)
    have hout : ∀ {page}, bitTest s.vm.pmm page = true → page ≠ f / 4096 :=
      fun hused => used_ne_clear hused hf.clear
    have hfresh : refsOf s.vm.spaces f = 0 := by
      by_contra hroot
      exact hout (h.ok.root_eq (mem_roots.mpr hroot)).1.used rfl
    rw [hstep]
    refine h.next (hc.vmOk h.ok (by decide) (le_refl 4))
      (registerSpace_spec h.one hfresh hc.slot).1 hc.kernel rfl (fun i hi => ?_) ?_ (fun a hK => ?_)
      fun r hr => ?_
    · exact Or.inl (hf.used hi)
    · rintro page ⟨r, hr, p, n, hp, hn, rfl⟩
      rw [show vm.roots = _ from hc.roots] at hr
      rcases hr with rfl | hr
      · rw [(hc.nodeAt_eq hp hn).2]
        exact Or.inr hf.clear
      · exact Or.inl (spacePage_of_nodeAt hr hp ((nodeAt_of_agree (hsame r hr) hp).symm.trans hn))
    · exact hc.outside a (hout (h.kernel_used hK))
    · rw [show vm.roots = _ from hc.roots] at hr
      rcases hr with rfl | hr
      · exact hc.shared h.aligned (h.kernel_used h.kernel)
      · exact (hsame r hr [] r ⟨Nat.zero_le _, by simp⟩ rfl 0).trans (h.shared r hr)

lemma MemSys.Sound.registry {spaces : List UserSpace} (hone : OneSlot spaces)
    (hroots : ∀ r, refsOf spaces r ≠ 0 ↔ refsOf s.vm.spaces r ≠ 0) :
    Sound K ⟨{ s.vm with spaces := spaces }, s.others⟩ := by
  have hsame : Vm.roots { s.vm with spaces := spaces } = s.vm.roots := by
    ext r
    rw [mem_roots, mem_roots]
    exact hroots r
  have hok : VmOk 4 { s.vm with spaces := spaces } :=
    h.ok.of_sameTables (by decide) (le_refl 4) (fun _ _ _ _ _ _ _ => rfl) hsame.le h.ok.count
      h.ok.total h.ok.zero fun r hr p f hp hf => (h.ok.frames r (hsame ▸ hr) p f hp hf).used
  refine h.next hok hone rfl rfl (fun i hi => Or.inl hi) ?_ (fun _ _ => rfl) fun r hr => ?_
  · rintro page ⟨r, hr, p, f, hp, hf, rfl⟩
    exact Or.inl (spacePage_of_nodeAt (hsame ▸ hr) hp hf)
  · exact h.shared r (hsame ▸ hr)

lemma MemSys.Sound.retain {cr3 : ℕ} (hroot : cr3 ∈ s.vm.roots)
    (hwrap : refsOf s.vm.spaces cr3 + 1 < 2 ^ 32) : (s.step (.retain cr3)).Sound K := by
  obtain ⟨hone, hrefs⟩ := retainSpace_spec h.one (mem_roots.mp hroot) hwrap
  simp only [step, vmmRetainUserSpace]
  split
  · exact h
  · refine h.registry hone fun r => ?_
    rw [hrefs]
    rcases eq_or_ne r cr3 with rfl | hne
    · simpa using mem_roots.mp hroot
    · rw [update_of_ne hne]

lemma MemSys.Sound.destroy (hr : r ∈ s.vm.roots) {spaces : List UserSpace} (hone : OneSlot spaces)
    (hrefs : refsOf spaces = Function.update (refsOf s.vm.spaces) r 0) :
    Sound K ⟨vmmDestroyUserSpace { s.vm with spaces := spaces } r, s.others⟩ := by
  have hk : r ≠ s.vm.kernelCr3 := by
    rintro rfl
    exact h.apart _ h.kernel (spacePage_root hr)
  obtain ⟨hpmm, hspaces, hkernel, hmem⟩ :=
    vmmDestroyUserSpace_spec { s.vm with spaces := spaces } h.ok hr hk rfl
  generalize vmmDestroyUserSpace { s.vm with spaces := spaces } r = vm at hpmm hspaces hkernel hmem
  change ∀ a, vm.mem a ≠ s.vm.mem a → _ at hmem
  have hroots : ∀ r' ∈ vm.roots, r' ≠ r ∧ r' ∈ s.vm.roots := by
    intro r' hr'
    rw [mem_roots, hspaces, hrefs] at hr'
    have hne : r' ≠ r := by
      rintro rfl
      simp at hr'
    rw [update_of_ne hne] at hr'
    exact ⟨hne, mem_roots.mpr hr'⟩
  have hframes : ∀ f ∈ spaceFrames s.vm.mem r,
      f ≠ 0 ∧ f % 4096 = 0 ∧ f / 4096 < s.vm.pmm.totalPagesCnt := by
    intro f hf
    obtain ⟨p, hp, hn⟩ := mem_spaceFrames.mp hf
    have := h.ok.frames r hr p f hp hn
    exact ⟨this.ne_zero, this.aligned, lt_of_lt_of_eq this.tracked h.ok.total.symm⟩
  have hbits : ∀ i, bitTest vm.pmm i =
      (bitTest s.vm.pmm i && !decide (i * 4096 ∈ spaceFrames s.vm.mem r)) := by
    intro i
    rw [hpmm, bitTest_freeAll hframes]
  have hspace : ∀ {page}, page * 4096 ∈ spaceFrames s.vm.mem r → SpacePage 4 s.vm page := by
    intro page hin
    obtain ⟨p, hp, hn⟩ := mem_spaceFrames.mp hin
    have := spacePage_of_nodeAt hr hp hn
    rwa [Nat.mul_div_cancel _ (by decide)] at this
  -- the frames of another space are not among those freed
  have hother : ∀ r' ∈ vm.roots, ∀ p f, UserPath 4 p → nodeAt s.vm.mem r' p = some f →
      f / 4096 * 4096 ∉ spaceFrames s.vm.mem r := by
    intro r' hr' p f hp hf hin
    obtain ⟨q, hq, hn⟩ := mem_spaceFrames.mp hin
    have hal := (h.ok.frames r' (hroots r' hr').2 p f hp hf).aligned
    rw [show f / 4096 * 4096 = f by omega] at hn
    exact (hroots r' hr').1 (h.ok.unshared (hroots r' hr').2 hr hp hq hf hn).1
  have hmem' : ∀ r' ∈ vm.roots, ∀ p f, UserPath 4 p → nodeAt s.vm.mem r' p = some f →
      ∀ a, a / 4096 = f / 4096 → vm.mem a = s.vm.mem a := by
    intro r' hr' p f hp hf a ha
    by_contra hne
    exact hother r' hr' p f hp hf (ha ▸ hmem a hne)
  -- first the space is struck off the registry, then its frames are freed
  have hreg : Vm.roots { s.vm with spaces := spaces } = vm.roots := by
    rw [Vm.roots, Vm.roots, hspaces]
  have hok1 : VmOk 4 { s.vm with spaces := spaces } :=
    h.ok.of_sameTables (by decide) (le_refl 4) (fun _ _ _ _ _ _ _ => rfl)
      (fun r' hr' => (hroots r' (hreg ▸ hr')).2) h.ok.count h.ok.total h.ok.zero
      fun r' hr' p f hp hf => (h.ok.frames r' (hroots r' (hreg ▸ hr')).2 p f hp hf).used
  have hsame : SameTables { s.vm with spaces := spaces } vm :=
    hok1.sameTables (by decide) fun r' hr' p t hp ht =>
      hmem' r' (hreg ▸ hr') p t (hp.mono (by decide)) ht
  have hok : VmOk 4 vm := by
    refine hok1.of_sameTables (by decide) (le_refl 4) hsame hreg.ge ?_ ?_ ?_ ?_
    · rw [hpmm]
      exact freeAll_countExact h.ok.count
    · rw [hpmm, freeAll_total]
      exact h.ok.total
    · have hzero : 0 * 4096 ∉ spaceFrames s.vm.mem r := fun hin => (hframes _ hin).1 rfl
      rw [hbits, h.ok.zero, decide_eq_false hzero]
      rfl
    · intro r' hr' p f hp hf
      rw [hbits, (h.ok.frames r' (hroots r' hr').2 p f hp hf).used,
        decide_eq_false (hother r' hr' p f hp hf)]
      rfl
  have hnode : ∀ r' ∈ vm.roots, ∀ p, UserPath 4 p → nodeAt vm.mem r' p = nodeAt s.vm.mem r' p :=
    fun r' hr' p hp => nodeAt_of_agree (hsame r' (hreg ▸ hr')) hp
  refine h.next hok (hspaces.symm ▸ hone) hkernel rfl (fun i hi => ?_) ?_ (fun a hK => ?_)
    fun r' hr' => ?_
  · by_cases hin : i * 4096 ∈ spaceFrames s.vm.mem r
    · exact Or.inr (hspace hin)
    · left
      rw [hbits, hi, decide_eq_false hin]
      rfl
  · rintro page ⟨r', hr', p, f, hp, hf, rfl⟩
    exact Or.inl (spacePage_of_nodeAt (hroots r' hr').2 hp ((hnode r' hr' p hp).symm.trans hf))
  · by_contra hne
    exact h.apart _ hK (hspace (hmem a hne))
  · exact (hsame r' (hreg ▸ hr') [] r' ⟨Nat.zero_le _, by simp⟩ rfl 0).trans
      (h.shared r' (hroots r' hr').2)

lemma MemSys.Sound.release (cr3 : ℕ) : (s.step (.release cr3)).Sound K := by
  simp only [step, vmmReleaseUserSpace]
  split
  · exact h
  by_cases hroot : refsOf s.vm.spaces cr3 = 0
  · simp only [releaseSpace_of_unregistered hroot]
    exact h
  obtain ⟨hlast, hone, hrefs⟩ := releaseSpace_spec h.one hroot
  rw [hlast]
  by_cases h1 : refsOf s.vm.spaces cr3 = 1
  · rw [decide_eq_true h1, if_pos rfl]
    rw [h1] at hrefs
    exact h.destroy (mem_roots.mpr hroot) hone hrefs
  · rw [decide_eq_false h1, if_neg (by decide)]
    refine h.registry hone fun r => ?_
    rw [hrefs]
    rcases eq_or_ne r cr3 with rfl | hne
    · rw [update_self]
      omega
    · rw [update_of_ne hne]

/-- What the other clients of the page allocator hold has changed. -/
lemma MemSys.Sound.foreign {p : Pmm} {others : List PageRun}
    (hlive : LiveOk (fun page => K page ∨ SpacePage 4 s.vm page) p others) :
    Sound K ⟨{ s.vm with pmm := p }, others⟩ := by
  have hok : VmOk 4 { s.vm with pmm := p } :=
    h.ok.of_sameTables (by decide) (le_refl 4) (fun _ _ _ _ _ _ _ => rfl) subset_rfl hlive.count
      hlive.total (hlive.reserved_used 0 (Or.inl h.zero)) fun r' hr' p f hp hf =>
        hlive.reserved_used _ (Or.inr (spacePage_of_nodeAt hr' hp hf))
  exact ⟨hok, hlive, h.apart, h.one, h.zero, h.kernel, h.aligned, h.pml4, h.shared, h.map⟩

lemma MemSys.Sound.alloc (pages : ℕ) : (s.step (.alloc pages)).Sound K := by
  by_cases hzero : (pmmAllocPages s.vm.pmm pages).1 = 0
  · have hsame := pmmAllocPages_of_eq_zero h.live hzero
    simp only [step, if_pos hzero, hsame]
    exact h
  have hlive := h.live.alloc hzero
  simp only [step, if_neg hzero]
  generalize pmmAllocPages s.vm.pmm pages = r at hlive hzero
  exact h.foreign hlive

lemma MemSys.Sound.free {addr pages : ℕ} (hrun : (addr, pages) ∈ s.others) :
    (s.step (.free addr pages)).Sound K :=
  h.foreign (h.live.free hrun)

lemma MemSys.Sound.store {addr : ℕ} (byte : UInt8) (hK : ¬ K (addr / 4096))
    (htable : ¬ SpacePage 3 s.vm (addr / 4096)) : (s.step (.store addr byte)).Sound K := by
  have hother : ∀ a, a ≠ addr → storeLE s.vm.mem 1 addr byte.toNat a = s.vm.mem a :=
    fun a ha => overlay_outside (by omega)
  have hsame : SameTables s.vm { s.vm with mem := storeLE s.vm.mem 1 addr byte.toNat } := by
    refine h.ok.sameTables (by decide) fun r hr p t hp ht a ha => hother a ?_
    rintro rfl
    exact htable (ha ▸ spacePage_of_nodeAt hr hp ht)
  refine h.sameTables hsame ?_ rfl rfl (fun i hi => hi) fun a ha => hother a ?_
  · exact h.ok.of_sameTables (by decide) (le_refl 4) hsame subset_rfl h.ok.count h.ok.total
      h.ok.zero fun r hr p f hp hf => (h.ok.frames r hr p f hp hf).used
  · rintro rfl
    exact hK ha

/-- **Every step keeps the invariant.** -/
theorem MemSys.Sound.step {op : MemOp} (hop : s.Ok K op) : (s.step op).Sound K := by
  cases op with
  | create => exact h.create
  | retain cr3 => exact h.retain hop.1 hop.2
  | release cr3 => exact h.release cr3
  | map cr3 virt flags content =>
    obtain ⟨hr, hv, hflags⟩ := hop
    obtain ⟨b, vm, new, heq, he, _⟩ := mapFreshPage_spec h.ok hr hv hflags content
    have := h.confined hr he.confined
    rwa [show vm = (mapFreshPage content s.vm cr3 virt flags).2 by rw [heq]] at this
  | unmap cr3 virt =>
    obtain ⟨hr, hv⟩ := hop
    rcases unmapFreePage_spec h.ok hr hv with ⟨_, heq⟩ | ⟨f, hu⟩
    · simp only [MemSys.step, heq]
      exact h
    · exact h.confined hr ((Extends.refl h.ok cr3).confined.unmapped hr hv hu)
  | call t c =>
    obtain ⟨new, hc⟩ := MemCall.confined h.ok hop.1 hop.2
    exact h.confined hop.1 hc
  | alloc pages => exact h.alloc pages
  | free addr pages => exact h.free hop
  | store addr byte => exact h.store byte hop.1 hop.2

/-- **Every run keeps the invariant.** -/
theorem MemSys.Sound.run {ops : List MemOp} (hops : Admissible (MemSys.Ok K) MemSys.step s ops) :
    (Lib.run MemSys.step s ops).Sound K :=
  run_invariant (I := Sound K) (fun _ _ hs hop => hs.step hop) h hops

end

end MyOs
