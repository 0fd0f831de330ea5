import MyOs.Memory.PageTables
import MyOs.Memory.PmmInit

/-!
# Address spaces as maps from pages to frames

What the four-level tables are for: each user space is a map from page numbers to a frame and its
flags.  `PageMaps` is that abstract machine, driven only by the results the calls return, and
`vmm_refines_page_maps` says that `vmm_resolve` reads it, over every run of calls on any number of
spaces among other clients of the page allocator.

The tables come from the shared page allocator, so the invariant has to know that no table is a
page of another client; `VmSys` lists the runs these clients hold.
-/

namespace MyOs

open Lib List Function

variable {D r : ℕ} {new : List ℕ} {s s' : Vm}
variable {m : Memory} {p : List Idx} {f : ℕ} {x : Option (ℕ × ℕ)} {others : List PageRun}

/-! ## Changes outside the tables -/

/-- If the tables of a space keep their contents, its paths lead where they led. -/
lemma nodeAt_of_agree {m' : Memory}
    (h : ∀ p t, UserPath 3 p → nodeAt m r p = some t → ∀ i, readEntry m' t i = readEntry m t i)
    (hp : UserPath 4 p) : nodeAt m' r p = nodeAt m r p := by
  refine walk_congr fun q i hq n hn => tableChild_congr (h q n ⟨?_, ?_⟩ hn i)
  · have := hq.length_le
    have := hp.1
    rw [length_append, length_singleton] at *
    omega
  · exact ((hp.of_isPrefix hq).closed q i).2

lemma leafAt_of_agree {m' : Memory}
    (h : ∀ p t, UserPath 3 p → nodeAt m r p = some t → ∀ i, readEntry m' t i = readEntry m t i)
    (hp : UserPath 3 p) (i : Idx) : leafAt m' r p i = leafAt m r p i := by
  have hnode := nodeAt_of_agree h (hp.mono (by decide))
  cases hn : nodeAt m r p with
  | none => rw [leafAt_of_none hn, leafAt_of_none (hnode.trans hn)]
  | some t => rw [leafAt_of_some hn, leafAt_of_some (hnode.trans hn), h p t hp hn i]

/-- The tables of the registered spaces read the same in `s'`. -/
def SameTables (s s' : Vm) : Prop :=
  ∀ r ∈ s.roots, ∀ p t, UserPath 3 p → nodeAt s.mem r p = some t →
    ∀ i, readEntry s'.mem t i = readEntry s.mem t i

lemma VmOk.sameTables (h : VmOk D s) (hD : 3 ≤ D)
    (hmem : ∀ r ∈ s.roots, ∀ p t, UserPath 3 p → nodeAt s.mem r p = some t →
      ∀ a, a / 4096 = t / 4096 → s'.mem a = s.mem a) : SameTables s s' :=
  fun r hr p t hp ht i =>
    readEntry_congr (h.frames r hr p t (hp.mono hD) ht).aligned (hmem r hr p t hp ht) i

/-- **What happens outside the tables keeps the invariant.** -/
theorem VmOk.of_sameTables (h : VmOk D s) (hD : 3 ≤ D) (hD' : D ≤ 4) (hsame : SameTables s s')
    (hroots : s'.roots ⊆ s.roots) (hcount : CountExact s'.pmm)
    (htotal : s'.pmm.totalPagesCnt = maxPages) (hzero : bitTest s'.pmm 0 = true)
    (hused : ∀ r ∈ s'.roots, ∀ p f, UserPath D p → nodeAt s.mem r p = some f →
      bitTest s'.pmm (f / 4096) = true) : VmOk D s' := by
  have hnode : ∀ r ∈ s'.roots, ∀ p, UserPath D p → nodeAt s'.mem r p = nodeAt s.mem r p :=
    fun r hr p hp => nodeAt_of_agree (hsame r (hroots hr)) (hp.mono hD')
  refine ⟨hcount, htotal, hzero, ?_, ?_, ?_⟩
  · intro r hr p f hp hf
    rw [hnode r hr p hp] at hf
    have hok := h.frames r (hroots hr) p f hp hf
    exact hok.mono (hused r hr p f hp hf)
  · exact h.unshared.mono hroots fun r hr p n hp hn => (hnode r hr p hp).symm.trans hn
  · intro r hr p i t hp ht
    have hp' := hp.closed p i
    rw [hnode r hr p (hp'.mono hD)] at ht
    rw [hsame r (hroots hr) p t hp' ht i]
    exact h.small r (hroots hr) p i t hp ht

/-! ## Creating a space -/

lemma roots_registerSpace {spaces spaces' : List UserSpace} (h : registerSpace spaces f = some spaces')
    (r : ℕ) :
    (∃ e ∈ spaces', e.cr3 = r ∧ e.refs ≠ 0) ↔
      r = f ∨ ∃ e ∈ spaces, e.cr3 = r ∧ e.refs ≠ 0 := by
  rw [registerSpace, Option.map_eq_some_iff] at h
  obtain ⟨slot, hslot, rfl⟩ := h
  rw [findFreeSpaceSlot, findIdx?_eq_some_iff_getElem] at hslot
  obtain ⟨hlt, hfree, _⟩ := hslot
  rw [decide_eq_true_eq] at hfree
  constructor
  · rintro ⟨e, he, rfl, hrefs⟩
    rcases mem_or_eq_of_mem_set he with he | rfl
    · exact Or.inr ⟨e, he, rfl, hrefs⟩
    · exact Or.inl rfl
  · rintro (rfl | ⟨e, he, rfl, hrefs⟩)
    · exact ⟨_, mem_set hlt _, rfl, by simp⟩
    · obtain ⟨k, hk, rfl⟩ := getElem_of_mem he
      have hne : slot ≠ k := fun heq => hrefs (by subst heq; exact hfree)
      refine ⟨spaces[k], ?_, rfl, hrefs⟩
      rw [mem_iff_getElem]
      exact ⟨k, by simpa using hk, by rw [getElem_set_ne hne]⟩

/-- The state `vmm_create_user_space` leaves behind when it succeeds. -/
structure Created (s s' : Vm) (f : ℕ) : Prop where
  handed : Handed s.pmm f s'.pmm
  kernel : s'.kernelCr3 = s.kernelCr3
  log : s'.handed = f :: s.handed
  roots : s'.roots = insert f s.roots
  outside : ∀ a, a / 4096 ≠ f / 4096 → s'.mem a = s.mem a
  empty : ∀ i, i ≠ 0 → readEntry s'.mem f i = 0
  shared : s.kernelCr3 % 4096 = 0 → bitTest s.pmm (s.kernelCr3 / 4096) = true →
    readEntry s'.mem f 0 = readEntry s.mem s.kernelCr3 0
  slot : registerSpace s.spaces f = some s'.spaces

/-- **What `vmm_create_user_space` can do**: fail without an effect on what is allocated, or
register a fresh PML4 whose user entries are empty. -/
theorem vmmCreateUserSpace_spec (hzero : bitTest s.pmm 0 = true) :
    (∃ s', vmmCreateUserSpace s = (0, s') ∧ s'.spaces = s.spaces ∧ s'.kernelCr3 = s.kernelCr3 ∧
      s'.pmm.totalPagesCnt = s.pmm.totalPagesCnt ∧ (CountExact s.pmm → CountExact s'.pmm) ∧
      (∀ i, bitTest s'.pmm i = bitTest s.pmm i) ∧
      ∀ a, bitTest s.pmm (a / 4096) = true → s'.mem a = s.mem a) ∨
    ∃ f s', vmmCreateUserSpace s = (f, s') ∧ Created s s' f := by
  rcases allocZeroPage_cases hzero with heq | ⟨f, p', hf, heq⟩
  · refine Or.inl ⟨s, ?_, rfl, rfl, rfl, id, fun _ => rfl, fun _ _ => rfl⟩
    simp only [vmmCreateUserSpace, heq, if_true]
  have hentry0 : ∀ e a, a / 4096 ≠ f / 4096 →
      writeEntry (fill s.mem f pageSize 0) f 0 e a = s.mem a := by
    intro e a ha
    have := hf.aligned
    rw [writeEntry_outside (by simp only [Fin.val_zero]; omega), fill_outside hf.aligned ha]
  cases hreg : registerSpace s.spaces f with
  | none =>
    refine Or.inl ⟨{ s with
      mem := writeEntry (fill s.mem f pageSize 0) f 0
        (readEntry (fill s.mem f pageSize 0) s.kernelCr3 0)
      pmm := pmmFreePages p' f 1
      handed := f :: s.handed }, ?_, rfl, rfl, ?_, ?_, ?_, ?_⟩
    · simp only [vmmCreateUserSpace, heq, if_neg hf.ne_zero, hreg]
    · exact (pmmFreePages_totalPagesCnt _ _ _).trans hf.total
    · exact fun h => pmmFreePages_countExact (hf.count h) _ _
    · intro i
      show bitTest (pmmFreePages p' f 1) i = bitTest s.pmm i
      rw [bitTest_free_frame hf.ne_zero (hf.total ▸ hf.tracked), hf.bits]
      by_cases hi : f / 4096 = i
      · subst hi
        simp [hf.clear]
      · simp [hi]
    · intro a ha
      exact hentry0 _ a (used_ne_clear ha hf.clear)
  | some spaces' =>
    refine Or.inr ⟨f, { s with
      mem := writeEntry (fill s.mem f pageSize 0) f 0
        (readEntry (fill s.mem f pageSize 0) s.kernelCr3 0)
      pmm := p'
      spaces := spaces'
      handed := f :: s.handed }, ?_, hf, rfl, rfl, ?_, hentry0 _, ?_, ?_, hreg⟩
    · simp only [vmmCreateUserSpace, heq, if_neg hf.ne_zero, hreg]
    · ext r
      exact roots_registerSpace hreg r
    · intro i hi
      show readEntry (writeEntry _ f 0 _) f i = 0
      rw [readEntry_writeEntry_of_ne hf.aligned hf.aligned (Or.inr hi), readEntry_fill]
    · intro hal hused
      show readEntry (writeEntry _ f 0 _) f 0 = _
      rw [readEntry_writeEntry, readEntry_congr hal fun a ha => fill_outside hf.aligned ?_]
      · exact Nat.mod_eq_of_lt (loadLE_lt _ _ _)
      · rw [ha]
        exact used_ne_clear hused hf.clear

lemma Created.nodeAt_eq (hc : Created s s' f) (hp : UserPath D p) {n : ℕ}
    (hn : nodeAt s'.mem f p = some n) : p = [] ∧ n = f := by
  cases p with
  | nil => exact ⟨rfl, (Option.some.inj hn).symm⟩
  | cons i p =>
    have hi : i ≠ 0 := fun h => hp.2 (by rw [h]; rfl)
    rw [nodeAt, walk_cons, tableChild_of_absent (by rw [hc.empty i hi]; decide)] at hn
    exact absurd hn (by simp)

lemma Created.sameTables (hc : Created s s' f) (h : VmOk D s) (hD : 3 ≤ D) : SameTables s s' := by
  refine h.sameTables hD fun r hr p t hp ht a ha => hc.outside a ?_
  rw [ha]
  exact used_ne_clear (h.frames r hr p t (hp.mono hD) ht).used hc.handed.clear

/-- **A created space keeps the invariant.** -/
theorem Created.vmOk (hc : Created s s' f) (h : VmOk D s) (hD : 3 ≤ D) (hD' : D ≤ 4) : VmOk D s' := by
  have hsame := hc.sameTables h hD
  have hf := hc.handed
  have hnode : ∀ r ∈ s.roots, ∀ p, UserPath D p → nodeAt s'.mem r p = nodeAt s.mem r p :=
    fun r hr p hp => nodeAt_of_agree (hsame r hr) (hp.mono hD')
  refine ⟨hf.count h.count, hf.total.trans h.total, hf.used h.zero, ?_, ?_, ?_⟩
  · intro r hr p n hp hn
    rw [hc.roots] at hr
    rcases hr with rfl | hr
    · obtain ⟨_, rfl⟩ := hc.nodeAt_eq hp hn
      exact hf.frameOk h.total
    · rw [hnode r hr p hp] at hn
      have hok := h.frames r hr p n hp hn
      exact hok.mono (hf.used hok.used)
  · -- the new PML4 was free, so no old path leads to it
    have hfresh := h.ne_of_clear hf.clear
    intro r r' p p' n hr hr' hp hp' hn hn'
    change nodeAt s'.mem r p = some n at hn
    change nodeAt s'.mem r' p' = some n at hn'
    rw [hc.roots] at hr hr'
    rcases hr with rfl | hr <;> rcases hr' with rfl | hr'
    · exact ⟨rfl, ((hc.nodeAt_eq hp hn).1).trans (hc.nodeAt_eq hp' hn').1.symm⟩
    · rw [(hc.nodeAt_eq hp hn).2, hnode r' hr' p' hp'] at hn'
      exact absurd hn' (hfresh r' hr' p' hp')
    · rw [(hc.nodeAt_eq hp' hn').2, hnode r hr p hp] at hn
      exact absurd hn (hfresh r hr p hp)
    · rw [hnode r hr p hp] at hn
      rw [hnode r' hr' p' hp'] at hn'
      exact h.unshared hr hr' hp hp' hn hn'
  · intro r hr p i t hp ht
    have hp' := hp.closed p i
    rw [hc.roots] at hr
    rcases hr with rfl | hr
    · obtain ⟨rfl, rfl⟩ := hc.nodeAt_eq hp' ht
      rw [hc.empty i (fun hi => hp.2 (by rw [hi]; rfl))]
      decide
    · rw [hnode r hr p (hp'.mono hD)] at ht
      rw [hsame r hr p t hp' ht i]
      exact h.small r hr p i t hp ht

section

variable {q : List Idx} {i : Idx} {t : ℕ} (hr : r ∈ s.roots) (hq : UserPath 3 q) (hlen : q.length = 3)
  (ht : nodeAt s.mem r q = some t) (e : ℕ)
include hr hq hlen ht

/-- The invariant after a page's entry was written: the tables are as they were, so only the
frames have to be looked at. -/
lemma VmOk.writeLeaf_of_frames (h : VmOk D s) (hD : 3 ≤ D)
    (hs' : s' = { s with mem := writeEntry s.mem t i e })
    (hframes : ∀ r ∈ s.roots, ∀ p f, UserPath D p → nodeAt s'.mem r p = some f → FrameOk s.pmm f)
    (hunshared : Unshared (tableChild s'.mem) s.roots (UserPath D)) : VmOk D s' := by
  obtain ⟨hnodes, hold⟩ := h.writeLeaf hD hr (i := i) hq hlen ht e
  subst hs'
  refine ⟨h.count, h.total, h.zero, hframes, hunshared, ?_⟩
  intro r' hr' p j t' hp ht'
  have hp' := hp.closed p j
  replace ht' := (hnodes r' hr' p hp').symm.trans ht'
  show readEntry (writeEntry s.mem t i e) t' j &&& vmmFlagHuge = 0
  rw [hold r' hr' p j t' (hp'.mono hD) ht' ?_]
  · exact h.small r' hr' p j t' hp ht'
  · rintro ⟨_, rfl, _⟩
    have := hp.1
    rw [length_append, hlen] at this
    simp at this

lemma VmOk.of_writeLeaf (h : VmOk 3 s) : VmOk 3 { s with mem := writeEntry s.mem t i e } := by
  obtain ⟨hnodes, -⟩ := h.writeLeaf (le_refl 3) hr (i := i) hq hlen ht e
  refine h.writeLeaf_of_frames hr hq hlen ht e (le_refl 3) rfl ?_ ?_
  · exact fun r' hr' p f hp hf => h.frames r' hr' p f hp ((hnodes r' hr' p hp).symm.trans hf)
  · exact h.unshared.mono (fun _ hr' => hr') fun r' hr' p n hp hn =>
      (hnodes r' hr' p hp).symm.trans hn

end

/-! ## The system -/

/-- The page tables and the runs of pages that other clients of the page allocator hold. -/
structure VmSys where
  vm : Vm
  others : List PageRun

/-- A call, or a store by another client into a page it holds. -/
inductive VmOp
  | create
  | map (cr3 virt phys flags : ℕ)
  | unmap (cr3 virt : ℕ)
  | alloc (pages : ℕ)
  | free (addr pages : ℕ)
  | store (addr : ℕ) (byte : UInt8)

/-- One call. -/
def VmSys.step (s : VmSys) : VmOp → VmSys
  | .create => { s with vm := (vmmCreateUserSpace s.vm).2 }
  | .map cr3 virt phys flags => { s with vm := (vmmMapPage s.vm cr3 virt phys flags).2 }
  | .unmap cr3 virt => { s with vm := (vmmUnmapPage s.vm cr3 virt).2 }
  | .alloc pages =>
    let r := pmmAllocPages s.vm.pmm pages
    { vm := { s.vm with pmm := r.2 }
      others := if r.1 = 0 then s.others else (r.1, pages) :: s.others }
  | .free addr pages =>
    { vm := { s.vm with pmm := pmmFreePages s.vm.pmm addr pages }
      others := s.others.erase (addr, pages) }
  | .store addr byte => { s with vm := { s.vm with mem := storeLE s.vm.mem 1 addr byte.toNat } }

/-- Pages are mapped and unmapped in registered spaces, outside the kernel's PML4 entry, with flags
that have no address bits; other clients keep to the pages they hold. -/
def VmSys.Ok (s : VmSys) : VmOp → Prop
  | .create => True
  | .map cr3 virt _ flags =>
    cr3 ∈ s.vm.roots ∧ l4 virt ≠ 0 ∧ flags < 2 ^ 64 ∧ flags &&& vmmAddrMask = 0
  | .unmap cr3 virt => cr3 ∈ s.vm.roots ∧ l4 virt ≠ 0
  | .alloc _ => True
  | .free addr pages => (addr, pages) ∈ s.others
  | .store addr _ => ∃ run ∈ s.others, InRun run (addr / 4096)

/-- The page is a frame of a registered space, at depth at most `D`. -/
def SpacePage (D : ℕ) (s : Vm) (page : ℕ) : Prop :=
  ∃ r ∈ s.roots, ∃ p f, UserPath D p ∧ nodeAt s.mem r p = some f ∧ f / 4096 = page

/-- The page is page 0 or the frame of a table. -/
def TablePage (s : Vm) (page : ℕ) : Prop := page = 0 ∨ SpacePage 3 s page

/-- The invariant: the tables are in order, and to the other clients they are reserved pages. -/
structure VmSys.Inv (s : VmSys) : Prop where
  ok : VmOk 3 s.vm
  live : LiveOk (TablePage s.vm) s.vm.pmm s.others

lemma VmSys.Inv.apart {s : VmSys} (h : s.Inv) {run : PageRun} (hrun : run ∈ s.others) {r : ℕ}
    (hr : r ∈ s.vm.roots) {t : ℕ} (hp : UserPath 3 p) (ht : nodeAt s.vm.mem r p = some t) :
    ¬ InRun run (t / 4096) :=
  fun hin => h.live.unreserved run hrun _ hin (Or.inr ⟨r, hr, p, t, hp, ht, rfl⟩)

/-! ## The abstract machine -/

/-- For each space, the frame and the flags each page number is mapped to. -/
abbrev PageMaps := ℕ → ℕ → Option (ℕ × ℕ)

variable {A : PageMaps}

/-- The abstract machine follows the calls by their results. -/
def PageMaps.step (A : PageMaps) (s : Vm) : VmOp → PageMaps
  | .create =>
    let cr3 := (vmmCreateUserSpace s).1
    if cr3 = 0 then A else Function.update A cr3 fun _ => none
  | .map cr3 virt phys flags =>
    if (vmmMapPage s cr3 virt phys flags).1 then
      Function.update A cr3 (Function.update (A cr3) (pageNum virt)
        (some (phys &&& vmmAddrMask, flags ||| vmmFlagPresent)))
    else A
  | .unmap cr3 virt => Function.update A cr3 (Function.update (A cr3) (pageNum virt) none)
  | _ => A

/-- `vmm_resolve` reads the maps: the physical address is the frame with the offset in the page,
and the entry is the frame with the flags. -/
def Refines (s : Vm) (A : PageMaps) : Prop :=
  ∀ r ∈ s.roots, ∀ v, l4 v ≠ 0 → vmmResolve s.mem r v =
    (A r (pageNum v)).map fun (frame, flags) => (frame ||| (v &&& 0xFFF), frame ||| flags)

/-- The result of a call is the one the maps call for. -/
def Answers (A : PageMaps) (s : Vm) : VmOp → Prop
  | .map cr3 virt phys flags =>
    (vmmMapPage s cr3 virt phys flags).1 = true → A cr3 (pageNum virt) = none
  | .unmap cr3 virt =>
    (vmmUnmapPage s cr3 virt).1 = ((A cr3 (pageNum virt)).map Prod.fst).getD 0
  | _ => True

/-- The entries of the tables are those of the maps. -/
def EntriesAre (s : Vm) (A : PageMaps) : Prop :=
  ∀ r ∈ s.roots, ∀ v, l4 v ≠ 0 → pte s.mem r v =
    (A r (pageNum v)).map fun (frame, flags) => frame ||| flags

/-- The maps hold frames and flags that an entry keeps apart. -/
def MapsOk (A : PageMaps) : Prop :=
  ∀ r n frame flags, A r n = some (frame, flags) →
    (frame ||| flags) &&& vmmAddrMask = frame ∧ (frame ||| flags) &&& vmmFlagPresent ≠ 0

lemma EntriesAre.refines (hok : VmOk 3 s) (hA : MapsOk A) (h : EntriesAre s A) : Refines s A := by
  intro r hr v hv
  rw [vmmResolve_eq hok hr hv, h r hr v hv, Option.map_map]
  cases hmap : A r (pageNum v) with
  | none => rfl
  | some x =>
    obtain ⟨frame, flags⟩ := x
    simp only [Option.map_some, comp_apply, (hA r _ frame flags hmap).1]

lemma EntriesAre.of_pte (h : EntriesAre s A) (hroots : s'.roots = s.roots)
    (hpte : ∀ r ∈ s.roots, ∀ v, l4 v ≠ 0 → pte s'.mem r v = pte s.mem r v) : EntriesAre s' A :=
  fun r hr v hv => (hpte r (hroots ▸ hr) v hv).trans (h r (hroots ▸ hr) v hv)

lemma EntriesAre.update (h : EntriesAre s A) (hok : VmOk 3 s) (hr : r ∈ s.roots) {v : ℕ} (hv : l4 v ≠ 0)
    {pt e : ℕ} (hpt : nodeAt s.mem r (tablePath v) = some pt)
    (hx : (if e % 2 ^ 64 &&& vmmFlagPresent = 0 then none else some (e % 2 ^ 64)) =
      x.map fun (frame, flags) => frame ||| flags) :
    EntriesAre { s with mem := writeEntry s.mem pt (l1 v) e }
      (update A r (update (A r) (pageNum v) x)) := by
  obtain ⟨hself, hother⟩ := hok.leafAt_writeLeaf (le_refl 3) hr (i := l1 v) (userPath_tablePath hv)
    (tablePath_length v) hpt e
  intro r' hr' w hw
  by_cases hrr : r' = r
  · subst hrr
    rw [update_self]
    by_cases hpage : pageNum w = pageNum v
    · obtain ⟨hpath, hi⟩ := (tablePath_eq_iff w v).mpr hpage
      rw [hpage, update_self, pte, hpath, hi]
      exact hself.trans hx
    · rw [update_of_ne hpage, ← h r' hr' w hw]
      exact hother r' hr' _ _ (userPath_tablePath hw)
        fun hsame => hpage ((tablePath_eq_iff w v).mp ⟨hsame.2.1, hsame.2.2⟩)
  · rw [update_of_ne hrr, ← h r' hr' w hw]
    exact hother r' hr' _ _ (userPath_tablePath hw) fun hsame => hrr hsame.1

/-! ## One call -/

/-- The system and the maps that follow it. -/
structure Track where
  sys : VmSys
  maps : PageMaps

variable {t : Track}

/-- One call, followed by the maps. -/
def Track.step (t : Track) (op : VmOp) : Track :=
  { sys := t.sys.step op, maps := t.maps.step t.sys.vm op }

/-- The invariant of the system together with the maps. -/
structure Track.Inv (t : Track) : Prop where
  sys : t.sys.Inv
  maps : MapsOk t.maps
  entries : EntriesAre t.sys.vm t.maps

lemma Track.Inv.intro (hok : VmOk 3 s) (hlive : LiveOk (TablePage s) s.pmm others) (hmaps : MapsOk A)
    (hentries : EntriesAre s A) : Track.Inv ⟨⟨s, others⟩, A⟩ :=
  ⟨⟨hok, hlive⟩, hmaps, hentries⟩

lemma MapsOk.update (h : MapsOk A) (r n : ℕ)
    (hx : ∀ frame flags, x = some (frame, flags) →
      (frame ||| flags) &&& vmmAddrMask = frame ∧ (frame ||| flags) &&& vmmFlagPresent ≠ 0) :
    MapsOk (update A r (update (A r) n x)) := by
  intro r' n' frame flags hA
  by_cases hr : r' = r
  · subst hr
    rw [update_self] at hA
    by_cases hn : n' = n
    · subst hn
      rw [update_self] at hA
      exact hx frame flags hA
    · rw [update_of_ne hn] at hA
      exact h r' n' frame flags hA
  · rw [update_of_ne hr] at hA
    exact h r' n' frame flags hA

lemma Grows.live (h : Grows 3 r new s s') (hlive : LiveOk (TablePage s) s.pmm others) :
    LiveOk (TablePage s') s'.pmm others := by
  refine hlive.reserve h.total h.ok.count (fun i hi => Or.inl (h.used i hi)) (Or.inl rfl) ?_
  rintro page (rfl | ⟨r', hr', p, t, hp, ht, rfl⟩)
  · exact ⟨h.ok.zero, Or.inl (Or.inl rfl)⟩
  · refine ⟨(h.ok.frames r' hr' p t hp ht).used, ?_⟩
    rw [h.roots] at hr'
    rcases h.linked r' hr' p t hp ht with hold | ⟨_, hnew⟩
    · exact Or.inl (Or.inr ⟨r', hr', p, t, hp, hold, rfl⟩)
    · exact Or.inr (h.clear t hnew).2

lemma Track.Inv.create (h : t.Inv) : (t.step .create).Inv := by
  have hok := h.sys.ok
  rcases vmmCreateUserSpace_spec hok.zero with
    ⟨s', heq, hspaces, _, htotal, hcount, hbits, hmem⟩ | ⟨f, s', heq, hc⟩
  · have hroots : s'.roots = t.sys.vm.roots := by rw [Vm.roots, Vm.roots, hspaces]
    have hsame : SameTables t.sys.vm s' := by
      refine hok.sameTables (le_refl 3) fun r hr p n hp hn a ha => hmem a ?_
      rw [ha]
      exact (hok.frames r hr p n hp hn).used
    have hok' : VmOk 3 s' := by
      refine hok.of_sameTables (le_refl 3) (by decide) hsame hroots.le (hcount hok.count)
        (htotal.trans hok.total) ((hbits 0).trans hok.zero) fun r hr p f hp hf => ?_
      rw [hbits]
      exact (hok.frames r (hroots ▸ hr) p f hp hf).used
    have hstep : t.step .create = ⟨⟨s', t.sys.others⟩, t.maps⟩ := by
      simp [Track.step, VmSys.step, PageMaps.step, heq]
    rw [hstep]
    refine Track.Inv.intro hok' ?_ h.maps (h.entries.of_pte hroots fun r hr v hv =>
      leafAt_of_agree (hsame r hr) (userPath_tablePath hv) _)
    refine h.sys.live.reserve htotal hok'.count (fun i hi => Or.inl ((hbits i).trans hi))
      (Or.inl rfl) ?_
    rintro page (rfl | ⟨r, hr, p, n, hp, hn, rfl⟩)
    · exact ⟨hok'.zero, Or.inl (Or.inl rfl)⟩
    · refine ⟨(hok'.frames r hr p n hp hn).used, Or.inl (Or.inr ⟨r, hroots ▸ hr, p, n, hp, ?_, rfl⟩)⟩
      exact (nodeAt_of_agree (hsame r (hroots ▸ hr)) (hp.mono (by decide))).symm.trans hn
  · have hf := hc.handed
    have hok' := hc.vmOk hok (le_refl 3) (by decide)
    have hsame := hc.sameTables hok (le_refl 3)
    have hstep : t.step .create =
        ⟨⟨s', t.sys.others⟩, update t.maps f fun _ => none⟩ := by
      simp [Track.step, VmSys.step, PageMaps.step, heq, hf.ne_zero]
    rw [hstep]
    refine Track.Inv.intro hok' ?_ ?_ ?_
    · refine h.sys.live.reserve hf.total hok'.count
        (fun i hi => Or.inl (hf.used hi)) (Or.inl rfl) ?_
      rintro page (rfl | ⟨r, hr, p, n, hp, hn, rfl⟩)
      · exact ⟨hok'.zero, Or.inl (Or.inl rfl)⟩
      · refine ⟨(hok'.frames r hr p n hp hn).used, ?_⟩
        rw [hc.roots] at hr
        rcases hr with rfl | hr
        · rw [(hc.nodeAt_eq hp hn).2]
          exact Or.inr hf.clear
        · refine Or.inl (Or.inr ⟨r, hr, p, n, hp, ?_, rfl⟩)
          exact (nodeAt_of_agree (hsame r hr) (hp.mono (by decide))).symm.trans hn
    · intro r n frame flags hA
      by_cases hr : r = f
      · rw [hr, update_self] at hA
        exact absurd hA (by simp)
      · rw [update_of_ne hr] at hA
        exact h.maps r n frame flags hA
    · intro r hr v hv
      have hpath := userPath_tablePath hv
      by_cases hrf : r = f
      · subst hrf
        rw [update_self]
        cases hn : nodeAt s'.mem r (tablePath v) with
        | none => exact leafAt_of_none hn _
        | some n => exact absurd (hc.nodeAt_eq hpath hn).1 (by simp [tablePath])
      · rw [update_of_ne hrf]
        have hr' : r ∈ t.sys.vm.roots := by
          rw [hc.roots] at hr
          exact hr.resolve_left hrf
        exact (leafAt_of_agree (hsame r hr') hpath _).trans (h.entries r hr' v hv)

lemma tablePage_writeLeaf (hok : VmOk 3 s) (hr : r ∈ s.roots) {q : List Idx} {i : Idx} {t : ℕ}
    (hq : UserPath 3 q) (hlen : q.length = 3) (ht : nodeAt s.mem r q = some t) (e page : ℕ)
    (h : TablePage { s with mem := writeEntry s.mem t i e } page) : TablePage s page := by
  obtain ⟨hnodes, _⟩ := hok.writeLeaf (le_refl 3) hr (i := i) hq hlen ht e
  rcases h with h | ⟨r', hr', p, n, hp, hn, hpage⟩
  · exact Or.inl h
  · exact Or.inr ⟨r', hr', p, n, hp, (hnodes r' hr' p hp).symm.trans hn, hpage⟩

lemma Track.Inv.writeLeaf (h : Track.Inv ⟨⟨s, others⟩, A⟩) (hr : r ∈ s.roots) {v : ℕ} (hv : l4 v ≠ 0)
    {pt e : ℕ} (hpt : nodeAt s.mem r (tablePath v) = some pt)
    (hx : (if e % 2 ^ 64 &&& vmmFlagPresent = 0 then none else some (e % 2 ^ 64)) =
      x.map fun (frame, flags) => frame ||| flags)
    (hx' : ∀ frame flags, x = some (frame, flags) →
      (frame ||| flags) &&& vmmAddrMask = frame ∧ (frame ||| flags) &&& vmmFlagPresent ≠ 0) :
    Track.Inv ⟨⟨{ s with mem := writeEntry s.mem pt (l1 v) e }, others⟩,
      update A r (update (A r) (pageNum v) x)⟩ := by
  have hok : VmOk 3 s := h.sys.ok
  have hlive : LiveOk (TablePage s) s.pmm others := h.sys.live
  have hpath := userPath_tablePath hv
  have hlen := tablePath_length v
  refine Track.Inv.intro (hok.of_writeLeaf hr hpath hlen hpt e) ?_ (h.maps.update r _ hx')
    (h.entries.update hok hr hv hpt hx)
  refine hlive.reserve rfl hlive.count (fun _ => Or.inl) (Or.inl rfl) fun page hpage => ?_
  have hpage' := tablePage_writeLeaf hok hr hpath hlen hpt e page hpage
  exact ⟨hlive.reserved_used page hpage', Or.inl hpage'⟩

lemma Track.Inv.grows (h : t.Inv) (hg : Grows 3 r new t.sys.vm s') :
    Track.Inv ⟨⟨s', t.sys.others⟩, t.maps⟩ :=
  Track.Inv.intro hg.ok (hg.live h.sys.live) h.maps (h.entries.of_pte hg.roots
    fun r hr v hv => hg.leaf r hr _ _ (userPath_tablePath hv) (tablePath_length v))

lemma Track.Inv.map (h : t.Inv) {cr3 virt phys flags : ℕ} (hop : t.sys.Ok (.map cr3 virt phys flags)) :
    (t.step (.map cr3 virt phys flags)).Inv ∧
      Answers t.maps t.sys.vm (.map cr3 virt phys flags) := by
  obtain ⟨hr, hv, hlt, hflags⟩ := hop
  obtain ⟨s1, new, hg, ⟨_, heq⟩ | ⟨⟨hnone, _⟩, _, pt, hpt, heq⟩⟩ :=
    mapPageInner_spec h.sys.ok (le_refl 3) hr hv phys flags
  · have hstep : t.step (.map cr3 virt phys flags) = ⟨⟨s1, t.sys.others⟩, t.maps⟩ := by
      simp [Track.step, VmSys.step, PageMaps.step, vmmMapPage, heq]
    rw [hstep]
    exact ⟨h.grows hg, by simp [Answers, vmmMapPage, heq]⟩
  · obtain ⟨hmod, hpresent, haddr⟩ := leafEntry_spec phys hlt hflags
    have hstep : t.step (.map cr3 virt phys flags) =
        ⟨⟨{ s1 with
              mem := writeEntry s1.mem pt (l1 virt)
                ((phys &&& vmmAddrMask) ||| (flags ||| vmmFlagPresent)) }, t.sys.others⟩,
          update t.maps cr3 (update (t.maps cr3) (pageNum virt)
            (some (phys &&& vmmAddrMask, flags ||| vmmFlagPresent)))⟩ := by
      simp [Track.step, VmSys.step, PageMaps.step, vmmMapPage, heq]
    rw [hstep]
    refine ⟨(h.grows hg).writeLeaf (hg.roots ▸ hr) hv hpt ?_ ?_, fun _ => ?_⟩
    · rw [hmod, if_neg hpresent]
      rfl
    · rintro frame fl hsome
      obtain ⟨rfl, rfl⟩ := Prod.mk.inj (Option.some.inj hsome)
      exact ⟨haddr, hpresent⟩
    · have := h.entries cr3 hr virt hv
      rw [hnone] at this
      exact Option.map_eq_none_iff.mp this.symm

lemma Track.Inv.unmap (h : t.Inv) {cr3 virt : ℕ} (hop : t.sys.Ok (.unmap cr3 virt)) :
    (t.step (.unmap cr3 virt)).Inv ∧ Answers t.maps t.sys.vm (.unmap cr3 virt) := by
  obtain ⟨hr, hv⟩ := hop
  have hentry := h.entries cr3 hr virt hv
  rcases vmmUnmapPage_spec h.sys.ok hr virt with ⟨hnone, heq⟩ | ⟨pt, e, hpt, hsome, heq⟩
  · rw [hnone] at hentry
    have hmap := Option.map_eq_none_iff.mp hentry.symm
    have hstep : t.step (.unmap cr3 virt) = ⟨t.sys, t.maps⟩ := by
      simp [Track.step, VmSys.step, PageMaps.step, heq, ← hmap]
    rw [hstep]
    exact ⟨h, by simp [Answers, heq, hmap]⟩
  · have hstep : t.step (.unmap cr3 virt) =
        ⟨⟨{ t.sys.vm with mem := writeEntry t.sys.vm.mem pt (l1 virt) 0 }, t.sys.others⟩,
          update t.maps cr3 (update (t.maps cr3) (pageNum virt) none)⟩ := by
      simp [Track.step, VmSys.step, PageMaps.step, heq]
    rw [hstep]
    refine ⟨Track.Inv.writeLeaf (A := t.maps) h hr hv hpt (by simp) (by simp), ?_⟩
    rw [hsome] at hentry
    obtain ⟨⟨frame, fl⟩, hmap, hor⟩ := Option.map_eq_some_iff.mp hentry.symm
    have haddr := (h.maps cr3 _ frame fl hmap).1
    simp only at hor
    rw [hor] at haddr
    simp only [Answers, heq, hmap, Option.map_some, Option.getD_some, haddr]

lemma Track.Inv.foreign (h : t.Inv) {p : Pmm} (hlive : LiveOk (TablePage t.sys.vm) p others)
    (hmem : ∀ a, m a ≠ t.sys.vm.mem a → ∃ run ∈ t.sys.others, InRun run (a / 4096)) :
    Track.Inv ⟨⟨{ t.sys.vm with pmm := p, mem := m }, others⟩, t.maps⟩ := by
  have hok := h.sys.ok
  set s' : Vm := { t.sys.vm with pmm := p, mem := m } with hs'
  have hsame : SameTables t.sys.vm s' := by
    refine hok.sameTables (le_refl 3) fun r hr q n hq hn a ha => ?_
    by_contra hne
    obtain ⟨run, hrun, hin⟩ := hmem a hne
    exact h.sys.apart hrun hr hq hn (ha ▸ hin)
  have hroots : s'.roots = t.sys.vm.roots := rfl
  have hnode : ∀ r ∈ t.sys.vm.roots, ∀ q, UserPath 3 q →
      nodeAt s'.mem r q = nodeAt t.sys.vm.mem r q :=
    fun r hr q hq => nodeAt_of_agree (hsame r hr) (hq.mono (by decide))
  have hok' : VmOk 3 s' :=
    hok.of_sameTables (le_refl 3) (by decide) hsame hroots.le hlive.count hlive.total
      (hlive.reserved_used 0 hlive.zero) fun r hr q f hq hf =>
        hlive.reserved_used _ (Or.inr ⟨r, hr, q, f, hq, hf, rfl⟩)
  refine Track.Inv.intro hok' ?_ h.maps (h.entries.of_pte hroots fun r hr v hv =>
    leafAt_of_agree (hsame r hr) (userPath_tablePath hv) _)
  refine hlive.reserve rfl hlive.count (fun _ => Or.inl) (Or.inl rfl) fun page hpage => ?_
  have hpage' : TablePage t.sys.vm page := by
    rcases hpage with rfl | ⟨r, hr, q, n, hq, hn, rfl⟩
    · exact Or.inl rfl
    · exact Or.inr ⟨r, hr, q, n, hq, (hnode r hr q hq).symm.trans hn, rfl⟩
  exact ⟨hlive.reserved_used page hpage', Or.inl hpage'⟩

/-- **One call**: the result is the one the maps call for, and the maps stay those of the tables. -/
theorem Track.Inv.step (h : t.Inv) {op : VmOp} (hop : t.sys.Ok op) :
    (t.step op).Inv ∧ Answers t.maps t.sys.vm op := by
  have hlive := h.sys.live
  cases op with
  | create => exact ⟨h.create, trivial⟩
  | map cr3 virt phys flags => exact h.map hop
  | unmap cr3 virt => exact h.unmap hop
  | alloc pages =>
    refine ⟨?_, trivial⟩
    refine h.foreign (m := t.sys.vm.mem) ?_ fun a ha => absurd rfl ha
    split_ifs with hz
    · rw [pmmAllocPages_of_eq_zero hlive hz]
      exact hlive
    · exact hlive.alloc hz
  | free addr pages =>
    exact ⟨h.foreign (m := t.sys.vm.mem) (hlive.free hop) fun a ha => absurd rfl ha, trivial⟩
  | store addr byte =>
    refine ⟨h.foreign (p := t.sys.vm.pmm) hlive fun a ha => ?_, trivial⟩
    have haddr : a = addr := by
      by_contra hne
      exact ha (overlay_outside (by omega))
    rw [haddr]
    exact hop

lemma vmOk_of_no_roots {reserved : ℕ → Prop} (hlive : LiveOk reserved s.pmm others)
    (hspaces : ∀ e ∈ s.spaces, e.refs = 0) : VmOk D s := by
  have hroots : ∀ r, r ∉ s.roots := fun r ⟨e, he, _, hrefs⟩ => hrefs (hspaces e he)
  exact ⟨hlive.count, hlive.total, hlive.reserved_used 0 hlive.zero, fun r hr => absurd hr (hroots r),
    fun r _ _ _ _ hr => absurd hr (hroots r), fun r hr => absurd hr (hroots r)⟩

/-- **Page tables are page maps.**  Start with no user space, any memory and a page allocator whose
live pages belong to other clients.  In every run of `vmm_create_user_space`, `vmm_map_page` and
`vmm_unmap_page` among calls and stores of the other clients, `vmm_resolve` reads the maps, and the
next call, whichever it is, returns what the maps call for and leaves `vmm_resolve` reading the
updated maps. -/
theorem vmm_refines_page_maps {reserved : ℕ → Prop} {s₀ : VmSys}
    (hlive : LiveOk reserved s₀.vm.pmm s₀.others) (hspaces : ∀ e ∈ s₀.vm.spaces, e.refs = 0)
    {ops : List VmOp}
    (hops : Admissible (fun t op => t.sys.Ok op) Track.step ⟨s₀, fun _ _ => none⟩ ops) :
    let t := run Track.step ⟨s₀, fun _ _ => none⟩ ops
    Refines t.sys.vm t.maps ∧
      ∀ op, t.sys.Ok op →
        Answers t.maps t.sys.vm op ∧ Refines (t.step op).sys.vm (t.step op).maps := by
  intro t
  have hroots : ∀ r, r ∉ s₀.vm.roots := fun r ⟨e, he, _, hrefs⟩ => hrefs (hspaces e he)
  have h0 : Track.Inv ⟨s₀, fun _ _ => none⟩ := by
    refine ⟨⟨vmOk_of_no_roots hlive hspaces, ?_⟩, ?_, ?_⟩
    · refine hlive.reserve rfl hlive.count (fun _ => Or.inl) (Or.inl rfl) ?_
      rintro page (rfl | ⟨r, hr, _⟩)
      · exact ⟨hlive.reserved_used 0 hlive.zero, Or.inl hlive.zero⟩
      · exact absurd hr (hroots r)
    · exact fun _ _ _ _ h => absurd h (by simp)
    · exact fun r hr => absurd hr (hroots r)
  have ht : t.Inv := run_invariant (I := Track.Inv) (fun _ _ hs hop => (hs.step hop).1) h0 hops
  refine ⟨ht.entries.refines ht.sys.ok ht.maps, fun op hop => ?_⟩
  obtain ⟨hnext, hanswers⟩ := ht.step hop
  exact ⟨hanswers, hnext.entries.refines hnext.sys.ok hnext.maps⟩

/-- The machine of `smallBoot` with a kernel PML4 in its image and no user space. -/
def smallVm : Vm :=
  { mem := smallBoot.mem
    pmm := smallPmm
    spaces := List.replicate vmmMaxUserSpaces { cr3 := 0, refs := 0 }
    kernelCr3 := 0x100000
    handed := [] }

lemma smallVm_ok : VmOk 4 smallVm :=
  vmOk_of_no_roots (pmmInit_liveOk smallPmm_boot) fun e he => by
    rw [eq_of_mem_replicate he]

/-- A space is created and a page is mapped in it. -/
theorem vmm_refines_page_maps_small :
    let t := run Track.step ⟨⟨smallVm, []⟩, fun _ _ => none⟩
      [.create, .map 0x200000 0x8000000000 0x300000 7]
    Refines t.sys.vm t.maps ∧
      ∀ op, t.sys.Ok op →
        Answers t.maps t.sys.vm op ∧ Refines (t.step op).sys.vm (t.step op).maps := by
  have hcreate : (vmmCreateUserSpace smallVm).2.spaces.head? = some ⟨0x200000, 1⟩ := by
    decide +kernel
  have hstep : ∀ (s : Vm) (A : PageMaps),
      (Track.step ⟨⟨s, []⟩, A⟩ .create).sys.vm = (vmmCreateUserSpace s).2 := fun _ _ => rfl
  have hroot : 0x200000 ∈ (Track.step ⟨⟨smallVm, []⟩, fun _ _ => none⟩ .create).sys.vm.roots := by
    rw [hstep]
    exact ⟨_, mem_of_head? hcreate, rfl, by decide⟩
  refine vmm_refines_page_maps (pmmInit_liveOk smallPmm_boot) ?_
    ⟨trivial, ⟨hroot, by decide, by decide, by decide⟩, trivial⟩
  intro e he
  rw [eq_of_mem_replicate he]

end MyOs
