import MyOs.Memory.KernelMap

/-!
# From boot to a running system

`vmm_init` (`src/vmm.c`) after `pmm_init`: the frames it was handed are the kernel's tables, and the
system starts sound (`vmmInit_sound`), also when memory runs out half-way.  With it
`mem_calls_spare_kernel_map` speaks of every state a booted system reaches.
-/

namespace MyOs

open Lib List

/-! ## The page directories of the identity map -/

lemma readEntry_foldl_writeEntry {t : ℕ} (ht : t % 4096 = 0) (g : Idx → ℕ) (idx : List Idx) :
    ∀ (m : Memory) (j : Idx), readEntry (idx.foldl (fun m i => writeEntry m t i (g i)) m) t j =
      if j ∈ idx then g j % 2 ^ 64 else readEntry m t j := by
  induction idx with
  | nil => simp
  | cons i idx ih =>
    intro m j
    rw [foldl_cons, ih]
    by_cases hj : j ∈ idx
    · simp [hj]
    by_cases hij : j = i
    · subst hij
      simp [hj, readEntry_writeEntry]
    · simp [hj, hij, readEntry_writeEntry_of_ne ht ht (Or.inr hij)]

lemma foldl_writeEntry_outside {t a : ℕ} (ht : t % 4096 = 0) (ha : a / 4096 ≠ t / 4096)
    (g : Idx → ℕ) (idx : List Idx) :
    ∀ m : Memory, idx.foldl (fun m i => writeEntry m t i (g i)) m a = m a := by
  induction idx with
  | nil => simp
  | cons i idx ih =>
    intro m
    have hi := i.isLt
    rw [foldl_cons, ih, writeEntry_outside (by omega)]

variable {m : Memory} {f fuel r v : ℕ} {done : List Idx} {b : Boot} {p p0 : Pmm} {s0 : Vm}

lemma fillIdentityPd_outside {pd a : ℕ} (gi : Idx) (hpd : pd % 4096 = 0) (ha : a / 4096 ≠ pd / 4096) :
    fillIdentityPd m pd gi a = m a :=
  foldl_writeEntry_outside hpd ha _ _ m

/-- The entry of the 2 MiB page `j` of the gigabyte `gi`. -/
def identityEntry (gi j : Idx) : ℕ := gi * 0x40000000 + j * 0x200000 + 0x183

lemma readEntry_fillIdentityPd {pd : ℕ} (gi : Idx) (hpd : pd % 4096 = 0) (j : Idx) :
    readEntry (fillIdentityPd m pd gi) pd j = identityEntry gi j := by
  rw [fillIdentityPd, readEntry_foldl_writeEntry hpd, if_pos (mem_allIdx j),
    show gi * 0x40000000 + (j : ℕ) * 0x200000 = (gi * 0x200 + j) * 2 ^ 21 by omega,
    show vmmFlagPresent ||| vmmFlagWritable ||| vmmFlagHuge ||| vmmFlagGlobal = 0x183 from rfl,
    or_eq_add_of_lt _ (by decide), identityEntry]
  omega

lemma identityEntry_huge (gi j : Idx) : identityEntry gi j &&& vmmFlagHuge ≠ 0 := by
  rw [and_vmmFlagHuge, identityEntry]
  omega

/-- The entry that links a kernel table. -/
def linkEntry (f : ℕ) : ℕ := (f ||| (vmmFlagPresent ||| vmmFlagWritable ||| vmmFlagGlobal)) % 2 ^ 64

lemma linkEntry_spec (hal : f % 4096 = 0) (hlt : f / 4096 < maxPages) :
    linkEntry f &&& vmmAddrMask = f ∧ linkEntry f &&& vmmFlagPresent ≠ 0 ∧
      linkEntry f &&& vmmFlagHuge = 0 := by
  simp only [maxPages, maxPhysBytes, pageSize] at hlt
  rw [linkEntry, show vmmFlagPresent ||| vmmFlagWritable ||| vmmFlagGlobal = 0x103 from rfl,
    show f = f / 4096 * 2 ^ 12 by omega, or_eq_add_of_lt _ (by decide), and_vmmAddrMask,
    and_vmmFlagPresent, and_vmmFlagHuge]
  omega

/-! ## Building the tables -/

/-- A state in which the frames handed out so far are in use, and no space is registered. -/
structure Booting (s : Vm) : Prop where
  count : CountExact s.pmm
  total : s.pmm.totalPagesCnt = maxPages
  zero : bitTest s.pmm 0 = true
  spaces : ∀ e ∈ s.spaces, e.refs = 0
  frames : ∀ f ∈ s.handed, FrameOk s.pmm f

variable {s : Vm} {pml4 pdpt : ℕ}

lemma Booting.allocZeroPage (h : Booting s) :
    MyOs.allocZeroPage s = (0, s) ∨ ∃ f p', MyOs.allocZeroPage s = (f, { s with
        pmm := p', mem := fill s.mem f pageSize 0, handed := f :: s.handed }) ∧
      FrameOk p' f ∧ f ∉ s.handed ∧ ∀ m, Booting { s with
        pmm := p', mem := m, handed := f :: s.handed } := by
  rcases allocZeroPage_cases h.zero with heq | ⟨f, p', hf, heq⟩
  · exact Or.inl heq
  have hframe := hf.frameOk h.total
  refine Or.inr ⟨f, p', heq, hframe, fun hin => ?_, fun m => ?_⟩
  · exact used_ne_clear (h.frames f hin).used hf.clear rfl
  · refine ⟨hf.count h.count, hf.total.trans h.total, hf.used h.zero, h.spaces, ?_⟩
    rintro g (_ | ⟨_, hg⟩)
    · exact hframe
    · exact (h.frames g hg).mono (hf.used (h.frames g hg).used)

/-- The identity map as far as it is built: entry 0 of the PML4 links the PDPT, which links a page
directory of 2 MiB pages for each gigabyte in `done`; all tables are frames handed out. -/
structure IdentityMap (pml4 pdpt : ℕ) (done : List Idx) (s : Vm) : Prop where
  booting : Booting s
  pml4_mem : pml4 ∈ s.handed
  pdpt_mem : pdpt ∈ s.handed
  ne : pml4 ≠ pdpt
  entry : ∀ i, readEntry s.mem pml4 i = if i = 0 then linkEntry pdpt else 0
  built : ∀ gi ∈ done, ∃ pd ∈ s.handed, pd ≠ pdpt ∧ readEntry s.mem pdpt gi = linkEntry pd ∧
    ∀ j, readEntry s.mem pd j = identityEntry gi j
  rest : ∀ gi, gi ∉ done → readEntry s.mem pdpt gi = 0

lemma IdentityMap.link (h : IdentityMap pml4 pdpt done s) {p' : Pmm} (gi : Idx) (hframe : FrameOk p' f)
    (hfresh : f ∉ s.handed)
    (hboot : ∀ m, Booting { s with pmm := p', mem := m, handed := f :: s.handed }) :
    IdentityMap pml4 pdpt (gi :: done) { s with
      pmm := p'
      mem := fillIdentityPd (writeEntry (fill s.mem f pageSize 0) pdpt gi
        (f ||| (vmmFlagPresent ||| vmmFlagWritable ||| vmmFlagGlobal))) f gi
      handed := f :: s.handed } := by
  have hal := hframe.aligned
  have hpdpt := (h.booting.frames pdpt h.pdpt_mem).aligned
  have hpdptf : pdpt ≠ f := fun heq => hfresh (heq ▸ h.pdpt_mem)
  generalize hm : fillIdentityPd (writeEntry (fill s.mem f pageSize 0) pdpt gi
    (f ||| (vmmFlagPresent ||| vmmFlagWritable ||| vmmFlagGlobal))) f gi = m'
  -- a table handed out before reads as before, but for the entry that is linked
  have hkeep : ∀ t ∈ s.handed, ∀ j, (t ≠ pdpt ∨ j ≠ gi) → readEntry m' t j = readEntry s.mem t j := by
    intro t ht j hne
    have htal := (h.booting.frames t ht).aligned
    have htf : t ≠ f := fun heq => hfresh (heq ▸ ht)
    rw [← hm, readEntry_congr htal fun a ha => fillIdentityPd_outside gi hal (by omega),
      readEntry_writeEntry_of_ne hpdpt htal hne,
      readEntry_congr htal fun a ha => fill_outside hal (by omega)]
  have hlink : readEntry m' pdpt gi = linkEntry f := by
    rw [← hm, readEntry_congr hpdpt fun a ha => fillIdentityPd_outside gi hal (by omega),
      readEntry_writeEntry, linkEntry]
  refine ⟨hboot _, mem_cons_of_mem _ h.pml4_mem, mem_cons_of_mem _ h.pdpt_mem, h.ne,
    fun i => (hkeep pml4 h.pml4_mem i (Or.inl h.ne)).trans (h.entry i), fun g hg => ?_, fun g hg => ?_⟩
  · by_cases hgi : g = gi
    · subst hgi
      refine ⟨f, mem_cons_self, hpdptf.symm, hlink, fun j => ?_⟩
      show readEntry m' f j = _
      rw [← hm, readEntry_fillIdentityPd g hal]
    · obtain ⟨pd, hpd, hne, hentry, hpages⟩ := h.built g ((mem_cons.mp hg).resolve_left hgi)
      exact ⟨pd, mem_cons_of_mem _ hpd, hne, (hkeep pdpt h.pdpt_mem g (Or.inr hgi)).trans hentry,
        fun j => (hkeep pd hpd j (Or.inl hne)).trans (hpages j)⟩
  · obtain ⟨hne, hdone⟩ := not_or.mp (mem_cons.not.mp hg)
    exact (hkeep pdpt h.pdpt_mem g (Or.inr hne)).trans (h.rest g hdone)

lemma identityPds_ok (gis : List Idx) : ∀ {s : Vm} {done : List Idx}, IdentityMap pml4 pdpt done s →
    ∃ done', IdentityMap pml4 pdpt done' (identityPds pdpt gis s) ∧
      ((∀ gi ∈ gis ++ done, gi ∈ done') ∨
        (identityPds pdpt gis s).handed.length < gis.length + s.handed.length) := by
  induction gis with
  | nil => exact fun {s done} h => ⟨done, h, Or.inl fun _ hgi => hgi⟩
  | cons gi gis ih =>
    intro s done h
    rcases h.booting.allocZeroPage with heq | ⟨f, p', heq, hframe, hfresh, hboot⟩
    · simp only [identityPds, heq, if_true]
      exact ⟨done, h, Or.inr (by simp)⟩
    · simp only [identityPds, heq, if_neg hframe.ne_zero]
      obtain ⟨done', hdone, hall⟩ := ih (h.link gi hframe hfresh hboot)
      refine ⟨done', hdone, ?_⟩
      rcases hall with hin | hlt
      · left
        intro g hg
        refine hin g ?_
        simp only [cons_append, mem_cons, mem_append] at hg ⊢
        tauto
      · right
        simp only [length_cons] at hlt ⊢
        omega

/-! ## The start -/

/-- Page 0 and the pages of the frames handed out so far; after `vmm_init` the kernel's tables. -/
def kernelTables (s : Vm) (page : ℕ) : Prop := page = 0 ∨ ∃ f ∈ s.handed, f / 4096 = page

lemma kernelTables_of_mem (hf : f ∈ s.handed) : kernelTables s (f / 4096) :=
  Or.inr ⟨f, hf, rfl⟩

/-- A boot that ends with a kernel map in the frames handed out starts a sound system. -/
lemma Booting.sound (h : Booting s) (hk : s.kernelCr3 ∈ s.handed)
    (hmap : KernelMap (kernelTables s) s.mem (readEntry s.mem s.kernelCr3 0)) :
    MemSys.Sound (kernelTables s) ⟨s, []⟩ := by
  have hroots : ∀ r, r ∉ s.roots := fun r ⟨e, he, _, hrefs⟩ => hrefs (h.spaces e he)
  have hnone : ∀ page, ¬ SpacePage 4 s page := fun page ⟨r, hr, _⟩ => hroots r hr
  have hlive : LiveOk (fun page => kernelTables s page ∨ SpacePage 4 s page) s.pmm [] := by
    refine ⟨h.total, h.count, Or.inl (Or.inl rfl), ?_, by simp, by simp, by simp⟩
    rintro page ((rfl | ⟨f, hf, rfl⟩) | hpage)
    · exact h.zero
    · exact (h.frames f hf).used
    · exact absurd hpage (hnone page)
  exact ⟨vmOk_of_no_roots hlive h.spaces, hlive, fun page _ => hnone page,
    pairwise_of_forall_mem_list fun e he _ _ _ => Or.inl (h.spaces e he), Or.inl rfl,
    kernelTables_of_mem hk, (h.frames _ hk).aligned, (h.frames _ hk).pml4FromCr3,
    fun r hr => absurd hr (hroots r), hmap⟩

lemma IdentityMap.kernelMap (h : IdentityMap pml4 pdpt done s) :
    KernelMap (kernelTables s) s.mem (readEntry s.mem pml4 0) := by
  have hpdpt := h.booting.frames pdpt h.pdpt_mem
  have hentry : readEntry s.mem pml4 0 &&& vmmAddrMask = pdpt := by
    rw [h.entry 0, if_pos rfl, (linkEntry_spec hpdpt.aligned hpdpt.tracked).1]
  -- a present entry of the PDPT is one that was built
  have hpd : ∀ i e3, readEntry s.mem pdpt i = e3 → e3 &&& vmmFlagPresent ≠ 0 →
      e3 &&& vmmAddrMask ∈ s.handed ∧
        ∀ j, readEntry s.mem (e3 &&& vmmAddrMask) j &&& vmmFlagHuge ≠ 0 := by
    rintro i e3 rfl hpres
    by_cases hi : i ∈ done
    · obtain ⟨pd, hmem, _, heq, hpages⟩ := h.built i hi
      have := h.booting.frames pd hmem
      rw [heq, (linkEntry_spec this.aligned this.tracked).1]
      exact ⟨hmem, fun j => by rw [hpages j]; exact identityEntry_huge i j⟩
    · rw [h.rest i hi] at hpres
      exact absurd rfl hpres
  rw [h.entry 0, if_pos rfl] at hentry ⊢
  refine ⟨fun _ => ?_, fun _ i e3 he3 h3 _ => ?_, fun _ i e3 he3 h3 _ j e2 he2 _ h2' => ?_⟩
  · rw [hentry]
    exact kernelTables_of_mem h.pdpt_mem
  · rw [hentry] at he3
    exact kernelTables_of_mem (hpd i e3 he3 h3).1
  · -- there are no page tables: every entry of a page directory is a huge page
    rw [hentry] at he3
    exact absurd h2' (he2 ▸ (hpd i e3 he3 h3).2 j)

/-- `map_identity_kernel` on an empty PML4: it builds the whole map, or stops for want of a
frame. -/
lemma mapIdentityKernel_ok (h : Booting s) (hmem : pml4 ∈ s.handed)
    (hempty : ∀ i, readEntry s.mem pml4 i = 0) {s' : Vm} (hs' : mapIdentityKernel s pml4 = s') :
    Booting s' ∧ pml4 ∈ s'.handed ∧
      KernelMap (kernelTables s') s'.mem (readEntry s'.mem pml4 0) ∧
      (s'.handed.length < 5 + s.handed.length ∨
        ∃ pdpt done, IdentityMap pml4 pdpt done s' ∧ ∀ gi : Idx, (gi : ℕ) < 4 → gi ∈ done) := by
  subst hs'
  rcases h.allocZeroPage with heq | ⟨pdpt, p', heq, hframe, hfresh, hboot⟩
  · -- no frame for the PDPT: entry 0 stays empty
    simp only [mapIdentityKernel, heq, if_true]
    have habsent : ¬ readEntry s.mem pml4 0 &&& vmmFlagPresent ≠ 0 := by
      rw [hempty]
      decide
    exact ⟨h, hmem, ⟨fun h => absurd h habsent, fun h => absurd h habsent,
      fun h => absurd h habsent⟩, Or.inl (by omega)⟩
  · simp only [mapIdentityKernel, heq, if_neg hframe.ne_zero]
    have hal := (h.frames pml4 hmem).aligned
    have hne : pml4 ≠ pdpt := fun heq => hfresh (heq ▸ hmem)
    have hstart : IdentityMap pml4 pdpt [] { s with
        pmm := p'
        mem := writeEntry (fill s.mem pdpt pageSize 0) pml4 0
          (pdpt ||| (vmmFlagPresent ||| vmmFlagWritable ||| vmmFlagGlobal))
        handed := pdpt :: s.handed } := by
      refine ⟨hboot _, mem_cons_of_mem _ hmem, mem_cons_self, hne, fun i => ?_, by simp, fun i _ => ?_⟩
      · show readEntry (writeEntry _ pml4 0 _) pml4 i = _
        by_cases hi : i = 0
        · rw [hi, readEntry_writeEntry, if_pos rfl, linkEntry]
        · rw [readEntry_writeEntry_of_ne hal hal (Or.inr hi), if_neg hi,
            readEntry_congr hal fun a ha => fill_outside hframe.aligned ?_, hempty]
          have := hframe.aligned
          omega
      · show readEntry (writeEntry _ pml4 0 _) pdpt i = _
        rw [readEntry_writeEntry_of_ne hal hframe.aligned (Or.inl hne.symm), readEntry_fill]
    obtain ⟨done, hdone, hall⟩ := identityPds_ok [0, 1, 2, 3] hstart
    refine ⟨hdone.booting, hdone.pml4_mem, hdone.kernelMap, hall.symm.imp (fun hlt => ?_) ?_⟩
    · simp only [length_cons, length_nil] at hlt
      omega
    · refine fun hin => ⟨pdpt, done, hdone, fun gi hgi => hin gi ?_⟩
      have hcases : (gi : ℕ) = 0 ∨ (gi : ℕ) = 1 ∨ (gi : ℕ) = 2 ∨ (gi : ℕ) = 3 := by omega
      simp only [append_nil, mem_cons, not_mem_nil, or_false]
      exact hcases.imp Fin.ext (Or.imp Fin.ext (Or.imp Fin.ext Fin.ext))

/-- The state `vmm_init` starts from: the memory and the page allocator of the boot. -/
def bootVm (m : Memory) (p : Pmm) : Vm :=
  { mem := m, pmm := p, spaces := [], kernelCr3 := 0, handed := [] }

/-- What `vmm_init` leaves behind if it gets a frame for the kernel's PML4; the map is complete if it
was handed six frames. -/
lemma vmmInit_ok (h : pmmInit fuel b p0 = some (p, true)) {s : Vm} (hs : vmmInit (bootVm b.mem p) = s)
    (hpml4 : s.kernelCr3 ≠ 0) :
    Booting s ∧ s.kernelCr3 ∈ s.handed ∧
      KernelMap (kernelTables s) s.mem (readEntry s.mem s.kernelCr3 0) ∧
      (s.handed.length < 6 ∨ ∃ pdpt done, IdentityMap s.kernelCr3 pdpt done s ∧
        ∀ gi : Idx, (gi : ℕ) < 4 → gi ∈ done) := by
  have hlive := pmmInit_liveOk h
  set s0 : Vm := { bootVm b.mem p with
    spaces := replicate vmmMaxUserSpaces { cr3 := 0, refs := 0 } } with hs0
  have hboot0 : Booting s0 := by
    refine ⟨hlive.count, hlive.total, hlive.reserved_used 0 hlive.zero, ?_, by simp [hs0, bootVm]⟩
    intro e he
    rw [eq_of_mem_replicate he]
  rcases hboot0.allocZeroPage with heq | ⟨pml4, p1, heq, hframe, _, hboot⟩
  · refine absurd ?_ hpml4
    simp only [← hs, vmmInit, ← hs0, heq, if_true]
    rfl
  obtain ⟨s1, hs1⟩ : ∃ s1, mapIdentityKernel { s0 with
    pmm := p1, mem := fill s0.mem pml4 pageSize 0, handed := pml4 :: s0.handed } pml4 = s1 := ⟨_, rfl⟩
  obtain ⟨hb, hmem, hmap, hall⟩ :=
    mapIdentityKernel_ok (hboot _) mem_cons_self (fun _ => readEntry_fill _ _ _) hs1
  have hinit : s = { s1 with kernelCr3 := pml4 } := by
    simp only [← hs, vmmInit, ← hs0, heq, if_neg hframe.ne_zero, hs1]
  have hbooting : Booting s := by
    rw [hinit]
    exact ⟨hb.count, hb.total, hb.zero, hb.spaces, hb.frames⟩
  subst hinit
  refine ⟨hbooting, hmem, hmap, ?_⟩
  rcases hall with hlt | ⟨pdpt, done, hid, hdone⟩
  · exact Or.inl hlt
  · exact Or.inr ⟨pdpt, done, ⟨hbooting, hid.pml4_mem, hid.pdpt_mem, hid.ne, hid.entry, hid.built,
      hid.rest⟩, hdone⟩

/-- **`vmm_init` starts a sound system.** -/
theorem vmmInit_sound (h : pmmInit fuel b p0 = some (p, true)) {s : Vm}
    (hs : vmmInit (bootVm b.mem p) = s) (hpml4 : s.kernelCr3 ≠ 0) :
    MemSys.Sound (kernelTables s) ⟨s, []⟩ := by
  obtain ⟨hboot, hmem, hmap, _⟩ := vmmInit_ok h hs hpml4
  exact hboot.sound hmem hmap

/-! ## What goes wrong under entry 0 -/

/-- The machine of `smallBoot` after `vmm_init`. -/
def smallKernel : Vm := vmmInit (bootVm smallBoot.mem smallPmm)

lemma smallKernel_eq : vmmInit (bootVm smallBoot.mem smallPmm) = smallKernel := rfl

lemma smallKernel_frames : smallKernel.kernelCr3 = 0x200000 ∧ smallKernel.handed.length = 6 ∧
    (vmmCreateUserSpace smallKernel).1 = 0x206000 := by
  decide +kernel

/-- The first user thread of the machine. -/
def smallThread : UserThread :=
  { isUser := true, cr3 := 0x206000, brkStart := 0, brkEnd := 0, mmapBase := 0 }

/-- The first space of a machine that booted with enough memory: the identity map is complete, and
the kernel's tables are as `vmm_init` left them. -/
structure FirstSpace (s₀ s : Vm) (r : ℕ) : Prop where
  sound : MemSys.Sound (kernelTables s₀) ⟨s, []⟩
  created : Created s₀ s r
  keep : ∀ a, kernelTables s₀ (a / 4096) → s.mem a = s₀.mem a
  kernel : kernelTables s₀ (s₀.kernelCr3 / 4096) ∧ s₀.kernelCr3 % 4096 = 0
  identity : ∃ pdpt done, IdentityMap s₀.kernelCr3 pdpt done s₀ ∧
    ∀ gi : Idx, (gi : ℕ) < 4 → gi ∈ done

lemma firstSpace (hboot : pmmInit fuel b p0 = some (p, true)) (hinit : vmmInit (bootVm b.mem p) = s0)
    (hcr3 : s0.kernelCr3 ≠ 0) (hall : s0.handed.length = 6) (hcreate : (vmmCreateUserSpace s0).1 = r)
    (hr : r ≠ 0) : FirstSpace s0 (vmmCreateUserSpace s0).2 r := by
  have hsound := vmmInit_sound hboot hinit hcr3
  obtain ⟨_, _, _, hid⟩ := vmmInit_ok hboot hinit hcr3
  have hc := (created_of_eq hsound.ok.zero (Prod.ext hcreate rfl) hr).1
  exact ⟨hsound.create, hc,
    fun a hK => hc.outside a (used_ne_clear (hsound.kernel_used hK) hc.handed.clear),
    ⟨hsound.kernel, hsound.aligned⟩, hid.resolve_left (by omega)⟩

lemma FirstSpace.root (h : FirstSpace s0 s r) : r ∈ s.roots :=
  h.created.roots.symm ▸ Set.mem_insert _ _

lemma FirstSpace.pml4_empty (h : FirstSpace s0 s r) {i : Idx} (hi : i ≠ 0) :
    readEntry s.mem s0.kernelCr3 i = 0 := by
  obtain ⟨pdpt, done, hid, _⟩ := h.identity
  rw [readEntry_congr h.kernel.2 fun a ha => h.keep a (ha ▸ h.kernel.1), hid.entry i, if_neg hi]

lemma smallSpace : FirstSpace smallKernel (vmmCreateUserSpace smallKernel).2 0x206000 :=
  firstSpace smallPmm_boot smallKernel_eq (by rw [smallKernel_frames.1]; decide)
    smallKernel_frames.2.1 smallKernel_frames.2.2 (by decide)

lemma run_create (s : Vm) :
    (run MemSys.step ⟨s, []⟩ [.create]).vm = (vmmCreateUserSpace s).2 := rfl

lemma smallThread_root : smallThread.cr3 ∈ (run MemSys.step ⟨smallKernel, []⟩ [.create]).vm.roots := by
  rw [run_create]
  exact smallSpace.root

lemma smallSpace_mmap :
    (sysMmap (vmmCreateUserSpace smallKernel).2 smallThread 0x201000 4096 3).2.1.handed =
        0x207000 :: (vmmCreateUserSpace smallKernel).2.handed ∧
      readEntry (sysMmap (vmmCreateUserSpace smallKernel).2 smallThread 0x201000 4096 3).2.1.mem
        0x200000 1 ≠ 0 := by
  decide +kernel

/-- **A user thread overwrites the kernel's PML4.**  The machine boots, a space is created, and its
thread calls `mmap(0x201000, 4096, PROT_READ | PROT_WRITE)`.  The call was handed one frame,
`0x207000`, and the kernel's PML4 at `0x200000` is not a table of the thread's space; yet entry 1
of the kernel's PML4, empty before, has changed. -/
theorem mmap_overwrites_kernel_pml4 :
    pmmInit 2 smallBoot pmmStatic = some (smallPmm, true) ∧
      vmmInit (bootVm smallBoot.mem smallPmm) = smallKernel ∧ smallKernel.kernelCr3 = 0x200000 ∧
      (vmmCreateUserSpace smallKernel).1 = smallThread.cr3 ∧
      (let s := (vmmCreateUserSpace smallKernel).2
      let s' := (sysMmap s smallThread 0x201000 4096 3).2.1
      s'.handed = 0x207000 :: s.handed ∧
        (∀ p, UserPath 4 p → nodeAt s.mem smallThread.cr3 p ≠ some 0x200000) ∧
        readEntry s.mem 0x200000 1 = 0 ∧ readEntry s'.mem 0x200000 1 ≠ 0) :=
  ⟨smallPmm_boot, smallKernel_eq, smallKernel_frames.1, smallKernel_frames.2.2, smallSpace_mmap.1,
    fun p hp hn => absurd (smallSpace.created.nodeAt_eq hp hn).2 (by decide),
    smallKernel_frames.1 ▸ smallSpace.pml4_empty (by decide), smallSpace_mmap.2⟩

/-! ## Memory calls in a booted system -/

/-- **Memory calls leave the kernel's map and the kernel's frames alone, if they stay out of PML4
entry 0.**  Boot, and let the system run; user threads make memory calls, none of which visits a
page under entry 0.  Then whatever such call a user thread makes next, it writes only to frames it
is handed, all free before, and to entries of its own space's tables other than entry 0 of the
PML4; translation under entry 0 is the same as before in the kernel's PML4 and in every space; and
no byte changes in a frame that was in use and is not a table of the thread's space. -/
theorem mem_calls_spare_kernel_map {fuel : ℕ} {b : Boot} {p₀ p : Pmm}
    (hboot : pmmInit fuel b p₀ = some (p, true)) {s₀ : Vm} (hinit : vmmInit (bootVm b.mem p) = s₀)
    (hpml4 : s₀.kernelCr3 ≠ 0) {ops : List MemOp}
    (hops : Admissible (MemSys.Ok (kernelTables s₀)) MemSys.step ⟨s₀, []⟩ ops) {t : UserThread}
    {c : MemCall} (ht : t.cr3 ∈ (run MemSys.step ⟨s₀, []⟩ ops).vm.roots)
    (hc : c.OutsideKernel (run MemSys.step ⟨s₀, []⟩ ops).vm t) :
    let s := (run MemSys.step ⟨s₀, []⟩ ops).vm
    let s' := (c.exec s t).2.1
    (∃ new, s'.handed = new ++ s.handed ∧ (∀ f ∈ new, bitTest s.pmm (f / 4096) = false) ∧
      ∀ a, s'.mem a ≠ s.mem a → a / 4096 * 4096 ∈ new ∨
        ∃ (p : List Idx) (i : Idx), UserPath 4 (p ++ [i]) ∧
          nodeAt s.mem t.cr3 p = some (a / 4096 * 4096) ∧ a % 4096 / 8 = i) ∧
      (∀ r, r ∈ s.roots ∨ r = s.kernelCr3 → ∀ v, l4 v = 0 →
        vmmResolve s'.mem r v = vmmResolve s.mem r v) ∧
      ∀ a, bitTest s.pmm (a / 4096) = true →
        (∀ p, UserPath 3 p → nodeAt s.mem t.cr3 p ≠ some (a / 4096 * 4096)) →
          s'.mem a = s.mem a := by
  intro s s'
  have hs : MemSys.Sound (kernelTables s₀) (run MemSys.step ⟨s₀, []⟩ ops) :=
    (vmmInit_sound hboot hinit hpml4).run hops
  obtain ⟨new, hconf⟩ := MemCall.confined hs.ok ht hc
  change Confined t.cr3 new s s' at hconf
  have hfresh : ∀ a, bitTest s.pmm (a / 4096) = true → a / 4096 * 4096 ∉ new := by
    intro a hused hin
    refine used_ne_clear hused (hconf.clear _ hin).2 ?_
    rw [Nat.mul_div_cancel _ (by decide)]
  refine ⟨⟨new, hconf.handed, fun f hf => (hconf.clear f hf).2, hconf.mem⟩,
    fun r hr v hv => hs.resolve_kept ht hconf.ownWrites hr hv, fun a hused htable => ?_⟩
  by_contra hne
  rcases hconf.mem a hne with hin | ⟨p, i, hp, hnode, _⟩
  · exact hfresh a hused hin
  · exact htable p hp.table hnode

/-- In the small machine, a page mapped in PML4 entry 1. -/
theorem mem_calls_spare_kernel_map_small :
    vmmResolve ((MemCall.mmap (2 ^ 39) 4096 3).exec
      (run MemSys.step ⟨smallKernel, []⟩ [.create]).vm smallThread).2.1.mem smallThread.cr3 0x201000 =
    vmmResolve (run MemSys.step ⟨smallKernel, []⟩ [.create]).vm.mem smallThread.cr3 0x201000 := by
  have hpml4 : smallKernel.kernelCr3 ≠ 0 := by
    rw [smallKernel_frames.1]
    decide
  have hops : Admissible (MemSys.Ok (kernelTables smallKernel)) MemSys.step ⟨smallKernel, []⟩
      [.create] := ⟨trivial, trivial⟩
  have hpages : ∀ s, (MemCall.mmap (2 ^ 39) 4096 3).OutsideKernel s smallThread := by
    intro s k hk _
    obtain rfl : k = 0 := by
      have : alignUpU64 4096 pageSize / pageSize = 1 := by decide
      omega
    decide
  obtain ⟨_, hresolve, _⟩ := mem_calls_spare_kernel_map smallPmm_boot smallKernel_eq hpml4 hops
    smallThread_root (hpages _)
  exact hresolve _ (Or.inl smallThread_root) _ rfl

end MyOs
