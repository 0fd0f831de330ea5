import MyOs.Loader.ElfFrame

/-!
# What is loaded where

`elf64_load_image` adds the offset of an address in its page twice when it copies: `vmm_resolve`
returns it in the physical address already.  So a segment that starts within a page is copied to the
wrong place.  For segments that start on a page boundary `elf_load_correct` says that the space
holds the file's bytes and zeros behind them, page by page through whatever frames were handed out.
-/

namespace MyOs

open Lib List

variable {r : ℕ} {s s' : Vm} {img : Image}

/-! ## Mapping the pages -/

/-- The pages of a range after `mapFreshPages` has mapped all of them. -/
structure FreshRange (r n va : ℕ) (s s' : Vm) : Prop where
  grown : ∃ new, Extends 4 r new s s'
  absent : ∀ k, k < n → pte s.mem r (pageAt va k) = none
  apart : ∀ j k, j < k → k < n → pageNum (pageAt va j) ≠ pageNum (pageAt va k)
  zero : ∀ k, k < n → ∀ w, pageNum w = pageNum (pageAt va k) → byteAt s' r w = some 0
  kept : ∀ w, l4 w ≠ 0 → (∀ k, k < n → pageNum w ≠ pageNum (pageAt va k)) →
    byteAt s' r w = byteAt s r w

lemma mapFreshPages_bytes {flags n va : ℕ} (hflags : PageFlags flags) (h : VmOk 4 s)
    (hr : r ∈ s.roots) (hva : va < 2 ^ 64) (huser : ∀ k, k < n → l4 (pageAt va k) ≠ 0)
    (heq : mapFreshPages r flags n s va = (n, s')) : FreshRange r n va s s' := by
  obtain ⟨k, s1, new, heq', -, -, he, hfresh⟩ :=
    mapFreshPages_spec hflags n h hr hva fun k hk _ => huser k hk
  obtain ⟨rfl, rfl⟩ := Prod.mk.inj (heq'.symm.trans heq)
  have hr1 : r ∈ s1.roots := he.roots ▸ hr
  refine ⟨⟨new, he⟩, fun i hi => ?_, fun i j => pageNum_injOn huser, fun i hi w hw => ?_,
    fun w hw hne => ?_⟩
  · obtain ⟨f, hm⟩ := hfresh.fresh i hi
    exact hm.absent
  · obtain ⟨f, hm⟩ := hfresh.fresh i hi
    have hw4 : l4 w ≠ 0 := by
      rw [l4_eq_of_pageNum hw]
      exact huser i hi
    rw [he.ok.byteAt_eq hr1 hw4, pagePath_inj.mpr hw, hm.node, Option.map_some,
      hm.content _ (Nat.mod_lt _ (by decide))]
  · by_cases hnone : byteAt s r w = none
    · rw [hnone, he.ok.byteAt_eq_none hr1 hw, hfresh.others r hr w hw fun _ => hne]
      exact (h.byteAt_eq_none hr hw).mp hnone
    · exact he.byteAt_keep h hr hw hnone

/-! ## Copying -/

/-- The two addresses name the same byte of the space. -/
def SameByte (v w : ℕ) : Prop := pageNum v = pageNum w ∧ v % 4096 = w % 4096

/-- The file's part of a segment after it was copied from `copied` on. -/
structure Copied (img : Image) (r vaddr off filesz copied : ℕ) (s s' : Vm) : Prop where
  ok : VmOk 4 s'
  spaces : s'.spaces = s.spaces
  file : ∀ i, copied ≤ i → i < filesz →
    byteAt s' r (vaddr + i) = some (img.bytes ((off + i) % 2 ^ 64))
  kept : ∀ w, l4 w ≠ 0 → (∀ i, copied ≤ i → i < filesz → ¬ SameByte w (vaddr + i)) →
    byteAt s' r w = byteAt s r w

/-- **The copy loop is right** from a page boundary on, if the pages of the segment are different
pages. -/
theorem copySegment_copied {vaddr off filesz : ℕ} (hwrap : vaddr + filesz ≤ 2 ^ 64)
    (haligned : vaddr % 4096 = 0) (hslots : ∀ i, i < filesz → l4 (vaddr + i) ≠ 0)
    (hapart : ∀ i j, i < filesz → j < filesz → pageNum (vaddr + i) = pageNum (vaddr + j) →
      i / 4096 = j / 4096) (turns : ℕ) :
    ∀ {s : Vm} {copied : ℕ}, VmOk 4 s → r ∈ s.roots → (copied < filesz → copied % 4096 = 0) →
      filesz ≤ copied + turns → copySegment img r vaddr off filesz turns s copied = (true, s') →
      Copied img r vaddr off filesz copied s s' := by
  induction turns with
  | zero =>
    rintro s copied h hr _ hturns heq
    obtain ⟨_, rfl⟩ := Prod.mk.inj heq
    exact ⟨h, rfl, fun i hi hlt => absurd hlt (by omega), fun _ _ _ => rfl⟩
  | succ turns ih =>
    intro s copied h hr hstart hturns heq
    by_cases hlt : copied < filesz
    swap
    · rw [copySegment_done (by omega)] at heq
      obtain ⟨_, rfl⟩ := Prod.mk.inj heq
      exact ⟨h, rfl, fun i hi hlt => absurd hlt (by omega), fun _ _ _ => rfl⟩
    have hv := hslots copied hlt
    have hpos := hstart hlt
    have hva : (vaddr + copied) % 2 ^ 64 = vaddr + copied := Nat.mod_eq_of_lt (by omega)
    cases hres : vmmResolve s.mem r (vaddr + copied) with
    | none =>
      rw [copySegment, if_pos hlt] at heq
      simp only [hva, hres] at heq
      exact absurd heq (by simp)
    | some x =>
      obtain ⟨pa, e⟩ := x
      obtain ⟨f, hnode, hframe, hpa⟩ := h.resolve_frame hr hv hres
      have htracked := hframe.tracked
      simp only [maxPages, maxPhysBytes, pageSize] at htracked
      have hoff : (vaddr + copied) % 4096 = 0 := by omega
      rw [hoff, Nat.add_zero] at hpa
      subst hpa
      rw [copySegment_turn img off hlt hva hres, hoff, Nat.add_zero, Nat.sub_zero,
        Nat.mod_eq_of_lt (by omega : pa < 2 ^ 64)] at heq
      generalize hn : min 4096 (filesz - copied) = n at heq
      have hnle : n ≤ 4096 := by omega
      generalize hs1 : { s with
        mem := overlay s.mem pa n fun j => img.bytes ((off + copied + j) % 2 ^ 64) } = s1 at heq
      have hbytes : ∀ w, l4 w ≠ 0 → byteAt s1 r w = _ :=
        fun w hw => h.byteAt_overlay hr hv hnode hnle hs1.symm hw
      have hal := hframe.aligned
      have hok1 := h.writeFrame hr hv hnode hs1.symm fun a ha => overlay_outside (by omega)
      have hr1 : r ∈ s1.roots := hs1 ▸ hr
      have hrest := ih hok1 hr1 (fun hlt => by omega) (by omega) heq
      refine ⟨hrest.ok, hrest.spaces.trans (by rw [← hs1]), fun i hi hfile => ?_, fun w hw hne => ?_⟩
      · by_cases hpiece : copied + n ≤ i
        · exact hrest.file i hpiece hfile
        · -- a byte of this piece, which the later ones leave alone
          have hsame : pageNum (vaddr + i) = pageNum (vaddr + copied) := by
            rw [pageNum, pageNum, show (vaddr + i) / 4096 = (vaddr + copied) / 4096 by omega]
          rw [hrest.kept _ (hslots i hfile) fun j hj hjf hbyte => by
            have := hapart i j hfile hjf hbyte.1
            omega, hbytes _ (hslots i hfile), if_pos ⟨hsame, by omega⟩,
            show off + copied + (vaddr + i) % 4096 = off + i by omega]
      · rw [hrest.kept w hw fun i hi hif => hne i (by omega) hif, hbytes w hw]
        refine if_neg fun hand => ?_
        refine hne (copied + w % 4096) (by omega) (by omega) ⟨?_, by omega⟩
        rw [hand.1, pageNum, pageNum,
          show (vaddr + (copied + w % 4096)) / 4096 = (vaddr + copied) / 4096 by omega]

/-! ## Segments -/

/-- A segment that does not hold more of the file than of memory, whose pages are outside PML4 entry
0 and below the last page of the address space, and which starts on a page boundary if any byte of
it comes from the file. -/
structure Image.SegmentSound (img : Image) (ph : Phdr) : Prop where
  sizes : ph.filesz ≤ ph.memsz
  top : ph.vaddr + img.loadBias + ph.memsz ≤ 2 ^ 64 - 4096
  slots : ∀ k, k < img.segPages ph → l4 (pageAt (img.segStart ph) k) ≠ 0
  aligned : ph.filesz ≠ 0 → (ph.vaddr + img.loadBias) % 4096 = 0

/-- The space holds the segment: the bytes of the file, and zeros behind them. -/
structure Loaded (img : Image) (r : ℕ) (ph : Phdr) (s : Vm) : Prop where
  file : ∀ i, i < ph.filesz →
    byteAt s r (img.segVaddr ph + i) = some (img.bytes ((ph.offset + i) % 2 ^ 64))
  zero : ∀ i, ph.filesz ≤ i → i < ph.memsz → byteAt s r (img.segVaddr ph + i) = some 0

/-- The bytes of mapped pages are as before. -/
def BytesKept (r : ℕ) (s s' : Vm) : Prop :=
  ∀ w, l4 w ≠ 0 → byteAt s r w ≠ none → byteAt s' r w = byteAt s r w

lemma BytesKept.trans {s'' : Vm} (h : BytesKept r s s') (h' : BytesKept r s' s'') :
    BytesKept r s s'' := by
  intro w hw hsome
  have hmid := h w hw hsome
  exact (h' w hw (by rwa [hmid])).trans hmid

section Segment

variable {ph : Phdr} (hph : img.SegmentSound ph)
include hph

lemma Image.SegmentSound.segVaddr_eq : img.segVaddr ph = ph.vaddr + img.loadBias := by
  have := hph.top
  exact Nat.mod_eq_of_lt (by omega)

lemma Image.SegmentSound.segEnd_eq :
    img.segEnd ph = (img.segVaddr ph + ph.memsz + 4095) / 4096 * 4096 := by
  have htop := hph.top
  rw [Image.segEnd, alignUpU64_page, hph.segVaddr_eq]
  omega

lemma Image.SegmentSound.page {i : ℕ} (hi : i < ph.memsz) :
    ∃ k, k < img.segPages ph ∧ pageNum (img.segVaddr ph + i) = pageNum (pageAt (img.segStart ph) k) ∧
      (img.segVaddr ph + i) / 4096 = img.segVaddr ph / 4096 + k := by
  have htop := hph.top
  have hend := hph.segEnd_eq
  rw [← hph.segVaddr_eq] at htop
  refine ⟨(img.segVaddr ph + i) / 4096 - img.segVaddr ph / 4096, ?_, ?_, by omega⟩
  · rw [Image.segPages, hend, Image.segStart, alignDownU64_page]
    simp only [pageSize]
    omega
  · rw [pageNum, pageNum, pageAt, Image.segStart, alignDownU64_page]
    simp only [pageSize]
    omega

lemma Image.SegmentSound.slot {i : ℕ} (hi : i < ph.memsz) : l4 (img.segVaddr ph + i) ≠ 0 := by
  obtain ⟨k, hk, hpage, _⟩ := hph.page hi
  rw [l4_eq_of_pageNum hpage]
  exact hph.slots k hk

lemma Loaded.kept (h : Loaded img r ph s) (hkept : BytesKept r s s') : Loaded img r ph s' where
  file i hi := by
    have := h.file i hi
    rw [hkept _ (hph.slot (lt_of_lt_of_le hi hph.sizes)) (by rw [this]; simp), this]
  zero i hi hlt := by
    have := h.zero i hi hlt
    rw [hkept _ (hph.slot hlt) (by rw [this]; simp), this]

lemma FreshRange.loaded {s1 : Vm} (h : VmOk 4 s) (hr : r ∈ s.roots)
    (hmap : FreshRange r (img.segPages ph) (img.segStart ph) s s1)
    (hcopy : copySegment img r (img.segVaddr ph) ph.offset ph.filesz ph.filesz s1 0 = (true, s')) :
    VmOk 4 s' ∧ s'.spaces = s.spaces ∧ Loaded img r ph s' ∧ BytesKept r s s' := by
  obtain ⟨new, he⟩ := hmap.grown
  have hr1 : r ∈ s1.roots := he.roots ▸ hr
  have htop := hph.top
  rw [← hph.segVaddr_eq] at htop
  have hsizes := hph.sizes
  -- different pages of the segment are different pages of the space
  have hapart : ∀ i j, i < ph.memsz → j < ph.memsz →
      pageNum (img.segVaddr ph + i) = pageNum (img.segVaddr ph + j) →
      (img.segVaddr ph + i) / 4096 = (img.segVaddr ph + j) / 4096 := by
    intro i j hi hj hsame
    obtain ⟨k, hk, hpk, hik⟩ := hph.page hi
    obtain ⟨l, hl, hpl, hjl⟩ := hph.page hj
    rw [hpk, hpl] at hsame
    rcases Nat.lt_trichotomy k l with hlt | rfl | hlt
    · exact absurd hsame (hmap.apart k l hlt hl)
    · omega
    · exact absurd hsame.symm (hmap.apart l k hlt hk)
  have hcopied : Copied img r (img.segVaddr ph) ph.offset ph.filesz 0 s1 s' := by
    by_cases hfile : ph.filesz = 0
    · rw [hfile, copySegment_done (le_refl _)] at hcopy
      obtain ⟨_, rfl⟩ := Prod.mk.inj hcopy
      exact ⟨he.ok, rfl, fun i _ hi => absurd hi (by omega), fun _ _ _ => rfl⟩
    · have haligned := hph.aligned hfile
      rw [← hph.segVaddr_eq] at haligned
      refine copySegment_copied (by omega) haligned (fun i hi => hph.slot (by omega))
        (fun i j hi hj hsame => ?_) _ he.ok hr1 (fun _ => rfl) (by omega) hcopy
      have := hapart i j (by omega) (by omega) hsame
      omega
  refine ⟨hcopied.ok, hcopied.spaces.trans he.spaces,
    ⟨fun i hi => hcopied.file i (Nat.zero_le _) hi, fun i hi hlt => ?_⟩, fun w hw hsome => ?_⟩
  · rw [hcopied.kept _ (hph.slot hlt) fun j _ hj hbyte => ?_]
    · obtain ⟨k, hk, hpage, _⟩ := hph.page hlt
      exact hmap.zero k hk _ hpage
    · have := hapart i j hlt (by omega) hbyte.1
      have := hbyte.2
      omega
  · -- a page that was mapped before is not one of the segment
    have hother : ∀ k, k < img.segPages ph → pageNum w ≠ pageNum (pageAt (img.segStart ph) k) := by
      intro k hk hsame
      refine hsome ((h.byteAt_eq_none hr hw).mpr ?_)
      rw [pte_congr s.mem r hsame]
      exact hmap.absent k hk
    rw [hcopied.kept w hw fun i _ hi hbyte => ?_, hmap.kept w hw hother]
    obtain ⟨k, hk, hpage, _⟩ := hph.page (lt_of_lt_of_le hi hsizes)
    exact hother k hk (hbyte.1.trans hpage)

end Segment

/-- The outcome of the loop over the program headers: what it has loaded, and where the last
segment ends. -/
structure SegmentsLoaded (img : Image) (r : ℕ) (phs : List Phdr) (s : Vm) (maxEnd : ℕ) (s' : Vm)
    (maxEnd' : ℕ) : Prop where
  ok : VmOk 4 s'
  spaces : s'.spaces = s.spaces
  kept : BytesKept r s s'
  loaded : ∀ ph ∈ phs, ph.type = ptLoad → Loaded img r ph s'
  le : maxEnd ≤ maxEnd'
  above : ∀ ph ∈ phs, ph.type = ptLoad → img.segVaddr ph + ph.memsz ≤ maxEnd'
  aligned : maxEnd % 4096 = 0 → maxEnd' % 4096 = 0

lemma loadSegment_loaded {ph : Phdr} {maxEnd maxEnd' : ℕ} (h : VmOk 4 s) (hr : r ∈ s.roots)
    (hph : ph.type = ptLoad → img.SegmentSound ph)
    (heq : loadSegment img r ph s maxEnd = (some maxEnd', s')) :
    SegmentsLoaded img r [ph] s maxEnd s' maxEnd' := by
  rcases loadSegment_some heq with ⟨htype, rfl, rfl⟩ | ⟨htype, s1, hmap, hcopy, hend⟩
  · exact ⟨h, rfl, fun _ _ _ => rfl, by simp [htype], le_refl _, by simp [htype], id⟩
  have hph := hph htype
  have hfresh := mapFreshPages_bytes (pageFlags_segmentFlags ph) h hr (segStart_lt img ph)
    hph.slots hmap
  obtain ⟨hok, hspaces, hloaded, hkept⟩ := hfresh.loaded hph h hr hcopy
  have htop := hph.top
  have hsegEnd := hph.segEnd_eq
  rw [← hph.segVaddr_eq] at htop
  rw [Nat.mod_eq_of_lt (by omega : img.segVaddr ph + ph.memsz < 2 ^ 64)] at hend
  refine ⟨hok, hspaces, hkept, by simpa using fun _ => hloaded, ?_, ?_, fun hal => ?_⟩
  · split at hend <;> omega
  · simp only [mem_singleton, forall_eq]
    split at hend <;> omega
  · split at hend <;> omega

/-- **The loop over the program headers.** -/
theorem loadSegments_loaded (phs : List Phdr) {maxEnd maxEnd' : ℕ} (h : VmOk 4 s) (hr : r ∈ s.roots)
    (hphs : ∀ ph ∈ phs, ph.type = ptLoad → img.SegmentSound ph)
    (heq : loadSegments img r phs s maxEnd = (some maxEnd', s')) :
    SegmentsLoaded img r phs s maxEnd s' maxEnd' := by
  fun_induction loadSegments img r phs s maxEnd
  case case1 =>
    simp only [Prod.mk.injEq, Option.some.injEq] at heq
    obtain ⟨rfl, rfl⟩ := heq
    exact ⟨h, rfl, fun _ _ _ => rfl, by simp, le_refl _, by simp, id⟩
  case case2 => simp at heq
  case case3 ph _ _ _ _ _ hseg ih =>
    have hfirst := loadSegment_loaded h hr (hphs ph mem_cons_self) hseg
    have hrest := ih hfirst.ok (by rwa [Vm.roots, hfirst.spaces]) (forall_mem_cons.mp hphs).2 heq
    refine ⟨hrest.ok, hrest.spaces.trans hfirst.spaces, hfirst.kept.trans hrest.kept, ?_,
      hfirst.le.trans hrest.le, ?_, fun hal => hrest.aligned (hfirst.aligned hal)⟩
    · rintro q (_ | ⟨_, hq⟩) htype
      · exact (hfirst.loaded ph (by simp) htype).kept (hphs ph mem_cons_self htype)
          hrest.kept
      · exact hrest.loaded q hq htype
    · rintro q (_ | ⟨_, hq⟩) htype
      · exact (hfirst.above ph (by simp) htype).trans hrest.le
      · exact hrest.above q hq htype

/-! ## The loader -/

lemma dynInfo_eq_empty (h : ∀ ph ∈ img.phdrs, ph.type ≠ ptDynamic) : img.dynInfo = {} := by
  rw [Image.dynInfo]
  generalize img.phdrs = phs at h
  induction phs with
  | nil => rfl
  | cons ph phs ih =>
    rw [foldl_cons, if_pos (h ph mem_cons_self)]
    exact ih fun q hq => h q (mem_cons_of_mem _ hq)

/-- A segment of one byte, sixteen bytes into its page. -/
def shiftedSegment : Phdr :=
  { type := ptLoad, flags := 6, offset := 0, vaddr := 0x8000000010, filesz := 1, memsz := 1 }

/-- **The page offset is added twice.**  The file's first byte, `0x7F`, is loaded at an address
sixteen bytes into a page of a new space.  The loader succeeds, and the byte there is zero. -/
theorem elf_load_misplaces_unaligned_segment :
    let s := (vmmCreateUserSpace smallVm).2
    let x := elf64LoadImage (oneSegment shiftedSegment) s 0x200000
    (vmmCreateUserSpace smallVm).1 = 0x200000 ∧ (oneSegment shiftedSegment).phdrs = [shiftedSegment] ∧
      (oneSegment shiftedSegment).bytes 0 = 0x7F ∧
      (x.1, byteAt x.2 0x200000 0x8000000010) = (some (0x8000000010, 0x8000001000), some 0) := by
  decide +kernel

/-- **Loading is right for segments on page boundaries.**  The image has no dynamic section, and all
its segments are sound.  If the loader succeeds then the space holds the bytes of the file at the
address of each segment, and zeros from there to the end of the segment, and the break it returns is
page aligned and not below the end of any segment. -/
theorem elf_load_correct (h : VmOk 4 s) (hr : r ∈ s.roots)
    (hdyn : ∀ ph ∈ img.phdrs, ph.type ≠ ptDynamic)
    (hphs : ∀ ph ∈ img.phdrs, ph.type = ptLoad → img.SegmentSound ph) {entry brk : ℕ}
    (hload : elf64LoadImage img s r = (some (entry, brk), s')) :
    (∀ ph ∈ img.phdrs, ph.type = ptLoad →
      (∀ i, i < ph.filesz → byteAt s' r (ph.vaddr + img.loadBias + i) =
        some (img.bytes ((ph.offset + i) % 2 ^ 64))) ∧
      (∀ i, ph.filesz ≤ i → i < ph.memsz →
        byteAt s' r (ph.vaddr + img.loadBias + i) = some 0) ∧
      ph.vaddr + img.loadBias + ph.memsz ≤ brk) ∧
    brk % 4096 = 0 := by
  have hnone := dynInfo_eq_empty hdyn
  obtain ⟨s1, hseg, hrelocs⟩ := elf64LoadImage_some hload
  obtain rfl : s' = s1 := by
    rcases hrelocs with ⟨_, _, heq⟩ | hrelocs
    · exact heq
    · -- there are no tables, so there is nothing to apply
      rw [hnone] at hrelocs
      exact (Prod.mk.inj hrelocs).2.symm
  have hdone := loadSegments_loaded img.phdrs h hr hphs hseg
  refine ⟨fun ph hph htype => ?_, hdone.aligned rfl⟩
  rw [← (hphs ph hph htype).segVaddr_eq]
  exact ⟨(hdone.loaded ph hph htype).file, (hdone.loaded ph hph htype).zero, hdone.above ph hph htype⟩

lemma eq_mk_of_fst {α β : Type} {x : α × β} {a : α} (h : x.1 = a) : x = (a, x.2) := Prod.ext h rfl

lemma oneSegment_byte_sound : (oneSegment byteSegment).SegmentSound byteSegment := by
  obtain ⟨_, _, hstart, hpages⟩ := oneSegment_byte
  refine ⟨by decide, by decide +kernel, fun k hk => ?_, fun _ => by decide +kernel⟩
  rw [hpages] at hk
  rw [hstart, show k = 0 by omega]
  decide

/-- One byte at the start of a page. -/
theorem elf_load_correct_small :
    byteAt (elf64LoadImage (oneSegment byteSegment) (vmmCreateUserSpace smallVm).2
      (vmmCreateUserSpace smallVm).1).2 (vmmCreateUserSpace smallVm).1 0x8000000000 = some 0x7F := by
  have hload : (elf64LoadImage (oneSegment byteSegment) (vmmCreateUserSpace smallVm).2
      (vmmCreateUserSpace smallVm).1).1 = some (0x8000000000, 0x8000001000) := by decide +kernel
  have hc := (created_of_eq smallVm_ok.zero Prod.mk.eta.symm (by decide +kernel)).1
  have hroot := hc.roots.symm ▸ Set.mem_insert _ _
  have hphs : ∀ ph ∈ (oneSegment byteSegment).phdrs, ph = byteSegment := by
    intro ph hph
    rwa [oneSegment_byte.1, mem_singleton] at hph
  have hcorrect := elf_load_correct (hc.vmOk smallVm_ok (by decide) (le_refl 4)) hroot
    (fun ph hph => by rw [hphs ph hph]; decide)
    (fun ph hph _ => by rw [hphs ph hph]; exact oneSegment_byte_sound) (eq_mk_of_fst hload)
  have hbyte := (hcorrect.1 byteSegment (by rw [oneSegment_byte.1]; simp) rfl).1 0 (by decide)
  have hvaddr : byteSegment.vaddr + (oneSegment byteSegment).loadBias + 0 = 0x8000000000 := by
    decide +kernel
  have hfirst : (oneSegment byteSegment).bytes ((byteSegment.offset + 0) % 2 ^ 64) = 0x7F := by
    decide +kernel
  rw [hvaddr, hfirst] at hbyte
  exact hbyte

end MyOs
