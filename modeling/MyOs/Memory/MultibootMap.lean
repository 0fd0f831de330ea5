import MyOs.Memory.PmmInit

/-!
# What the memory map leaves free

`Mb2Block b` is a well-formed multiboot2 block: tags that end with an END tag inside the block, exactly one
of them a memory map, and a memory map of whole entries.  On such a block both walks of `pmm_init` end, and
the pages that are free afterwards are those the map says are available, without the low megabyte, the
kernel image and the block itself (`pmmInit_frees_memory_map`).

The map is looked at as a list of entries; the order and the overlaps of the entries do not matter, since
freeing ranges only ever clears bits.
-/

namespace MyOs

open Lib List

/-! ## Well-formed blocks -/

/-- `mb2_mmap_entry_t`. -/
structure MmapEntry where
  addr : ℕ
  len : ℕ
  type : ℕ

/-- The entry at an address. -/
def mmapEntry (m : Memory) (a : ℕ) : MmapEntry :=
  ⟨read64 m a, read64 m (a + 8), read32 m (a + 16)⟩

/-- `n` entries from an address on, `entrySize` bytes apart. -/
def mmapEntries (m : Memory) (entrySize : ℕ) : (n a : ℕ) → List MmapEntry
  | 0, _ => []
  | n + 1, a => mmapEntry m a :: mmapEntries m entrySize n (a + entrySize)

/-- The entries of the memory-map tag at `tag`. -/
def mmapOf (m : Memory) (tag : ℕ) : List MmapEntry :=
  mmapEntries m (read32 m (tag + 8)) ((read32 m (tag + 4) - 16) / read32 m (tag + 8)) (tag + 16)

/-- The tags from `tag` on are `tags`, and then comes the END tag, which ends before `fin`. -/
def Tags (m : Memory) (fin : ℕ) : (tag : ℕ) → (tags : List ℕ) → Prop
  | tag, [] => read32 m tag = mb2TagEnd ∧ tag + 8 ≤ fin
  | tag, t :: tags =>
    t = tag ∧ read32 m tag ≠ mb2TagEnd ∧ 8 ≤ read32 m (tag + 4) ∧
      Tags m fin (tag + (read32 m (tag + 4) + 7) / 8 * 8) tags

/-- A well-formed multiboot2 block. -/
structure Mb2Block (b : Boot) where
  tags : List ℕ
  mmap : ℕ
  walk : Tags b.mem (b.mb2 + read32 b.mem b.mb2) (b.mb2 + 8) tags
  one_mmap : tags.filter (fun tag => read32 b.mem tag = mb2TagMmap) = [mmap]
  header_le : 16 ≤ read32 b.mem (mmap + 4)
  stride_ge : 24 ≤ read32 b.mem (mmap + 8)
  whole_entries : read32 b.mem (mmap + 8) ∣ read32 b.mem (mmap + 4) - 16
  bounded : ∀ e ∈ mmapOf b.mem mmap, e.addr + e.len ≤ 2 ^ 64 - 4096

/-- The entries of the memory map. -/
def Mb2Block.entries {b : Boot} (w : Mb2Block b) : List MmapEntry := mmapOf b.mem w.mmap

/-- The page has a byte in `[lo, hi)`. -/
def Intersects (page lo hi : ℕ) : Prop := ∃ a, a / 4096 = page ∧ lo ≤ a ∧ a < hi

/-- The page lies inside one available entry, and nothing that is in use lies in it. -/
def Boot.Usable (b : Boot) (entries : List MmapEntry) (page : ℕ) : Prop :=
  (∃ e ∈ entries, e.type = 1 ∧ Inside page e.addr (e.addr + e.len)) ∧
    ¬ Intersects page 0 0x100000 ∧ ¬ Intersects page b.kernelStart b.kernelEnd ∧
    ¬ Intersects page b.mb2 (b.mb2 + read32 b.mem b.mb2)

/-! ## The tag walk -/

lemma mb2Align8_eq {x : ℕ} (hx : x + 7 < 2 ^ 32) : mb2Align8 x = (x + 7) / 8 * 8 := by
  have hmask : 2 ^ 32 - 1 - 7 = 2 ^ 32 - 2 ^ 3 := by norm_num
  rw [mb2Align8, Nat.mod_eq_of_lt hx, hmask, and_highMask (by norm_num), Nat.mod_eq_of_lt hx]
  rfl

namespace Tags

variable {m : Memory} {fin tag : ℕ} {tags : List ℕ}

lemma length_le (h : Tags m fin tag tags) : tag + 8 * (tags.length + 1) ≤ fin := by
  induction tags generalizing tag with
  | nil => exact h.2
  | cons t tags ih =>
    obtain ⟨_, _, hsize, hrest⟩ := h
    have := ih hrest
    rw [length_cons]
    omega

lemma size_le (h : Tags m fin tag tags) {t : ℕ} (ht : t ∈ tags) :
    tag ≤ t ∧ t + read32 m (t + 4) + 8 ≤ fin := by
  induction tags generalizing tag with
  | nil => cases ht
  | cons u tags ih =>
    obtain ⟨rfl, _, _, hrest⟩ := h
    rcases List.mem_cons.mp ht with rfl | ht
    · have := hrest.length_le
      omega
    · have := ih hrest ht
      omega

lemma findMmap_eq (h : Tags m fin tag tags) (hfin : fin < tag + 2 ^ 32) (hspace : fin < 2 ^ 64)
    {mmap : ℕ} (hmmap : tags.filter (fun tag => read32 m tag = mb2TagMmap) = [mmap]) {fuel : ℕ}
    (hfuel : tags.length < fuel) : findMmap m fuel tag = some (some mmap) := by
  induction tags generalizing tag fuel with
  | nil => cases hmmap
  | cons t tags ih =>
    obtain ⟨rfl, hend, hsize, hrest⟩ := h
    cases fuel with
    | zero => cases hfuel
    | succ fuel =>
      rw [findMmap, if_neg hend]
      by_cases htype : read32 m t = mb2TagMmap
      · rw [filter_cons_of_pos (by simpa using htype), cons.injEq] at hmmap
        rw [if_pos htype, hmmap.1]
      · rw [filter_cons_of_neg (by simpa using htype)] at hmmap
        have hroom := hrest.length_le
        rw [if_neg htype, mb2Align8_eq (by omega), Nat.mod_eq_of_lt (by omega)]
        exact ih hrest (by omega) hmmap (Nat.lt_of_succ_lt_succ hfuel)

end Tags

/-! ## The entry walk -/

/-- What `pmm_init` does with an entry. -/
def freeEntry (p : Pmm) (e : MmapEntry) : Pmm :=
  if e.type = 1 then pmmFreeRange p e.addr e.len else p

lemma freeEntries_eq {m : Memory} {entrySize : ℕ} (hpos : 0 < entrySize) :
    ∀ {n fuel : ℕ} {p : Pmm} {a : ℕ}, n < fuel →
      freeEntries m (a + n * entrySize) entrySize fuel p a =
        some ((mmapEntries m entrySize n a).foldl freeEntry p) := by
  intro n
  induction n with
  | zero =>
    intro fuel p a hfuel
    cases fuel with
    | zero => cases hfuel
    | succ fuel =>
      rw [freeEntries, if_neg (by omega)]
      rfl
  | succ n ih =>
    intro fuel p a hfuel
    cases fuel with
    | zero => cases hfuel
    | succ fuel =>
      have hend : a + (n + 1) * entrySize = a + entrySize + n * entrySize := by ring
      rw [freeEntries, if_pos (by rw [hend]; omega), hend, ih (Nat.lt_of_succ_lt_succ hfuel)]
      rfl

lemma freeEntry_total (p : Pmm) (e : MmapEntry) : (freeEntry p e).totalPagesCnt = p.totalPagesCnt := by
  rw [freeEntry]
  split_ifs
  · exact pmmFreeRange_totalPagesCnt p _ _
  · rfl

lemma bitTest_foldl_freeEntry {es : List MmapEntry} (hes : ∀ e ∈ es, e.addr + e.len ≤ 2 ^ 64 - 4096)
    {p : Pmm} (htotal : p.totalPagesCnt = maxPages) {page : ℕ} (hpage : page < maxPages) :
    (es.foldl freeEntry p).totalPagesCnt = maxPages ∧
      (bitTest (es.foldl freeEntry p) page = true ↔ bitTest p page = true ∧
        ¬ ∃ e ∈ es, e.type = 1 ∧ Inside page e.addr (e.addr + e.len)) := by
  induction es generalizing p with
  | nil => exact ⟨htotal, by simp⟩
  | cons e es ih =>
    have hbound := hes e mem_cons_self
    have hfirst : bitTest (freeEntry p e) page = true ↔
        bitTest p page = true ∧ ¬ (e.type = 1 ∧ Inside page e.addr (e.addr + e.len)) := by
      rw [freeEntry]
      split_ifs with htype
      · rw [bitTest_pmmFreeRange (by omega) (by omega), htotal]
        simp [htype, hpage]
      · simp [htype]
    obtain ⟨htotal', hrest⟩ := ih (fun e he => hes e (mem_cons_of_mem _ he))
      ((freeEntry_total p e).trans htotal)
    refine ⟨htotal', ?_⟩
    rw [foldl_cons, hrest, hfirst, and_assoc, ← not_or]
    simp only [mem_cons, exists_eq_or_imp]

/-! ## Booting -/

/-- Rounding outward sees the pages that intersect a range, unless it is empty and begins inside a
page. -/
lemma intersects_iff_touches {page lo hi : ℕ} (hle : lo ≤ hi) (h : lo < hi ∨ 4096 ∣ lo) :
    Intersects page lo hi ↔ Touches page lo hi := by
  rw [Touches]
  constructor
  · rintro ⟨a, rfl, hlo, hhi⟩
    omega
  · rintro ⟨hhi, hlo⟩
    exact ⟨max lo (page * 4096), by omega, by omega, by omega⟩

lemma bitTest_pmmAllUsed (p : Pmm) {page : ℕ} (hpage : page < maxPages) :
    bitTest (pmmAllUsed p) page = true := by
  have hmod : page % 8 < 8 := Nat.mod_lt _ (by decide)
  have hbyte : page / 8 < maxPages / 8 := by
    simp only [maxPages, maxPhysBytes, pageSize] at hpage ⊢
    omega
  have hff : (0xFF : UInt8).toNat = 2 ^ 8 - 1 := rfl
  rw [bitTest, getBit_eq_testBit]
  simp only [pmmAllUsed, if_pos hbyte]
  rw [hff, Nat.testBit_two_pow_sub_one, decide_eq_true_eq]
  exact hmod

lemma bitTest_reserveBootPages {b : Boot} {p : Pmm} (htotal : p.totalPagesCnt = maxPages) {page : ℕ}
    (hpage : page < maxPages) :
    bitTest (reserveBootPages b p) page = true ↔
      Touches page b.mb2 (b.mb2 + read32 b.mem b.mb2) ∨ Touches page b.kernelStart b.kernelEnd ∨
        Touches page 0 0x100000 ∨ bitTest p page = true := by
  have hmb2 : read32 b.mem b.mb2 < 2 ^ 32 := loadLE_lt b.mem 4 b.mb2
  have hlt := b.mb2_lt
  have hfit : b.kernelEnd ≤ 4 * 1024 * 1024 * 1024 := b.image_fits
  have hle := b.image_le
  have hsize : b.kernelStart + (b.kernelEnd - b.kernelStart) = b.kernelEnd := by omega
  rw [reserveBootPages, bitTest_pmmReserveRange (by omega), bitTest_pmmReserveRange (by omega),
    bitTest_pmmReserveRange (by omega)]
  simp only [pmmReserveRange_totalPagesCnt, htotal, hpage, hsize, Nat.zero_add, and_true]

namespace Mb2Block

variable {b : Boot}

lemma total_lt (b : Boot) : b.mb2 + read32 b.mem b.mb2 < b.mb2 + 2 ^ 32 :=
  Nat.add_lt_add_left (loadLE_lt b.mem 4 b.mb2) _

lemma mmap_mem (w : Mb2Block b) : w.mmap ∈ w.tags := by
  have hmem : w.mmap ∈ w.tags.filter fun tag => read32 b.mem tag = mb2TagMmap := by
    rw [w.one_mmap]
    exact mem_singleton_self _
  exact (List.mem_filter.mp hmem).1

/-- Both walks of `pmm_init` end, within a number of turns that the size of the block bounds. -/
lemma pmmInit_eq (w : Mb2Block b) (p0 : Pmm) {fuel : ℕ} (hfuel : read32 b.mem b.mb2 ≤ fuel) :
    pmmInit fuel b p0 = some ({ pmmRecountFree
      (reserveBootPages b (w.entries.foldl freeEntry (pmmAllUsed p0))) with ready := true }, true) := by
  have htotal := total_lt b
  have hmb2 := b.mb2_lt
  have hlength := w.walk.length_le
  have hsize := (w.walk.size_le w.mmap_mem).2
  have hlow := (w.walk.size_le w.mmap_mem).1
  have hfind : findMmap b.mem fuel (b.mb2 + 8) = some (some w.mmap) :=
    w.walk.findMmap_eq (by omega) (by omega) w.one_mmap (by omega)
  have hstride := w.stride_ge
  have hheader := w.header_le
  obtain ⟨n, hn⟩ := w.whole_entries
  have hcount : (read32 b.mem (w.mmap + 4) - 16) / read32 b.mem (w.mmap + 8) = n := by
    rw [hn]
    exact Nat.mul_div_cancel_left n (by omega)
  have hend : w.mmap + read32 b.mem (w.mmap + 4) = w.mmap + 16 + n * read32 b.mem (w.mmap + 8) := by
    rw [Nat.mul_comm, ← hn]
    omega
  have hturns : n < fuel := by
    have : n * 24 ≤ n * read32 b.mem (w.mmap + 8) := Nat.mul_le_mul_left n hstride
    omega
  have hentries : freeEntries b.mem (w.mmap + read32 b.mem (w.mmap + 4)) (read32 b.mem (w.mmap + 8))
      fuel (pmmAllUsed p0) (w.mmap + 16) = some (w.entries.foldl freeEntry (pmmAllUsed p0)) := by
    rw [hend, freeEntries_eq (by omega) hturns, entries, mmapOf, hcount]
  simp only [pmmInit, hfind, hentries]

lemma bitTest_booted (w : Mb2Block b)
    (himage : b.kernelStart < b.kernelEnd ∨ 4096 ∣ b.kernelStart) (p0 : Pmm) {page : ℕ}
    (hpage : page < maxPages) :
    bitTest (reserveBootPages b (w.entries.foldl freeEntry (pmmAllUsed p0))) page = false ↔
      b.Usable w.entries page := by
  have hlength := w.walk.length_le
  have hbounded : ∀ e ∈ w.entries, e.addr + e.len ≤ 2 ^ 64 - 4096 := w.bounded
  obtain ⟨hcnt, hfree⟩ := bitTest_foldl_freeEntry hbounded (p := pmmAllUsed p0) rfl hpage
  have hopen : bitTest (w.entries.foldl freeEntry (pmmAllUsed p0)) page = true ↔
      ¬ ∃ e ∈ w.entries, e.type = 1 ∧ Inside page e.addr (e.addr + e.len) :=
    hfree.trans (and_iff_right (bitTest_pmmAllUsed p0 hpage))
  rw [← Bool.not_eq_true, bitTest_reserveBootPages hcnt hpage, hopen, Boot.Usable,
    intersects_iff_touches (Nat.zero_le _) (Or.inr (dvd_zero _)),
    intersects_iff_touches b.image_le himage,
    intersects_iff_touches (by omega) (Or.inl (by omega)), not_or, not_or, not_or, not_not]
  constructor
  · rintro ⟨hblock, hkernel, hlow, hin⟩
    exact ⟨hin, hlow, hkernel, hblock⟩
  · rintro ⟨hin, hlow, hkernel, hblock⟩
    exact ⟨hblock, hkernel, hlow, hin⟩

end Mb2Block

open Classical in
/-- **The free pages are those of the memory map.**  For every well-formed multiboot2 block and a kernel
image that is not empty, or empty at the start of a page, `pmm_init` returns, a page below 4 GiB is free
exactly if it lies inside one available entry and in none of the three reserved ranges, and the count is
the number of these pages. -/
theorem pmmInit_frees_memory_map {b : Boot} (w : Mb2Block b)
    (himage : b.kernelStart < b.kernelEnd ∨ 4096 ∣ b.kernelStart) (p₀ : Pmm) {fuel : ℕ}
    (hfuel : read32 b.mem b.mb2 ≤ fuel) :
    ∃ p, pmmInit fuel b p₀ = some (p, true) ∧
      (∀ page, page < maxPages → (bitTest p page = false ↔ b.Usable w.entries page)) ∧
      p.freePagesCnt = ((Finset.range maxPages).filter fun page => b.Usable w.entries page).card := by
  refine ⟨_, w.pmmInit_eq p₀ hfuel, fun page hpage => w.bitTest_booted himage p₀ hpage, ?_⟩
  have hcnt : (reserveBootPages b (w.entries.foldl freeEntry (pmmAllUsed p₀))).totalPagesCnt =
      maxPages := by
    have hzero : 0 < maxPages := by decide
    rw [reserveBootPages, pmmReserveRange_totalPagesCnt, pmmReserveRange_totalPagesCnt,
      pmmReserveRange_totalPagesCnt]
    exact (bitTest_foldl_freeEntry w.bounded (show (pmmAllUsed p₀).totalPagesCnt = _ from rfl) hzero).1
  simp only [pmmRecountFree, hcnt, clearCount_eq_card]
  refine congrArg Finset.card (Finset.filter_congr fun page hpage => ?_)
  exact w.bitTest_booted himage p₀ (Finset.mem_range.mp hpage)

/-- A block like that of `smallBoot`, with one memory map of one entry. -/
def smallBlock {b : Boot} (hmem : b.mem = smallBoot.mem) (hmb2 : b.mb2 = 0x10000) : Mb2Block b where
  tags := [0x10008]
  mmap := 0x10008
  walk := by
    rw [hmem, hmb2]
    refine ⟨rfl, by decide, by decide, by decide, by decide⟩
  one_mmap := by
    rw [hmem]
    decide
  header_le := by rw [hmem]; decide
  stride_ge := by rw [hmem]; decide
  whole_entries := by rw [hmem]; decide
  bounded := by rw [hmem]; decide

open Classical in
theorem pmmInit_frees_memory_map_small :
    ∃ p, pmmInit 56 smallBoot pmmStatic = some (p, true) ∧
      (∀ page, page < maxPages →
        (bitTest p page = false ↔ smallBoot.Usable (smallBlock (b := smallBoot) rfl rfl).entries page)) ∧
      p.freePagesCnt = ((Finset.range maxPages).filter fun page =>
        smallBoot.Usable (smallBlock (b := smallBoot) rfl rfl).entries page).card :=
  pmmInit_frees_memory_map (smallBlock rfl rfl) (Or.inl (by decide)) pmmStatic (by decide)

/-- `smallBoot` with an empty kernel image in the middle of a page of available memory. -/
def emptyImageBoot : Boot :=
  { smallBoot with
    kernelStart := 0x200800
    kernelEnd := 0x200800
    image_le := le_refl _
    image_fits := by decide }

/-- **An empty image takes a page.**  Page 512 lies inside the available entry and intersects nothing that
is reserved, but the range `[_kernel_start, _kernel_end)` is rounded outward to it. -/
theorem empty_image_takes_page :
    ∃ w : Mb2Block emptyImageBoot, emptyImageBoot.Usable w.entries 512 ∧
      ∃ p, pmmInit 56 emptyImageBoot pmmStatic = some (p, true) ∧ bitTest p 512 = true := by
  have hfuel : read32 emptyImageBoot.mem emptyImageBoot.mb2 ≤ 56 := by decide
  have hinit := (smallBlock (b := emptyImageBoot) rfl rfl).pmmInit_eq pmmStatic hfuel
  refine ⟨smallBlock rfl rfl, ?_, _, hinit, ?_⟩
  · refine ⟨⟨mmapEntry smallBoot.mem 0x10018, ?_, by decide, ?_⟩, ?_, ?_, ?_⟩
    · exact mem_cons_self
    · rw [Inside]
      decide
    · rintro ⟨a, ha, -, hlt⟩
      omega
    · rintro ⟨a, -, hge, hlt⟩
      exact absurd (lt_of_le_of_lt hge hlt) (lt_irrefl _)
    · rintro ⟨a, ha, -, hlt⟩
      have hend : emptyImageBoot.mb2 + read32 emptyImageBoot.mem emptyImageBoot.mb2 = 0x10038 := by
        decide
      omega
  · refine (pmmInit_liveOk hinit).reserved_used 512 ⟨by decide, Or.inr (Or.inl ?_)⟩
    rw [Touches]
    decide

end MyOs
