import MyOs.Memory.PmmInit

/-!
# What the calls of the page allocator do, exactly

`pmm_alloc_pages` is first fit: when there is a run of clear pages of the length asked for, the lowest
one is taken (`pmmAllocPages_first_fit`).  The single pass of the search keeps only the length of the
clear run that ends at the current page; `allocScan_first` says why that is enough.

`pmm_free_range` and `pmm_reserve_range` round with arithmetic modulo `2 ^ 64`, and so they are exact
only for ranges that stay away from the top of the address space (`range_calls_exact_iff`).  A range
that begins in the last page and ends before `2 ^ 64` has its start rounded to 0, and freeing it frees
all of the low 4 GiB.
-/

namespace MyOs

open Lib

/-! ## First fit -/

/-- The `pages` bits from `s` on are clear. -/
def ClearAt (b : Bitmap) (pages s : ℕ) : Prop := ∀ j, j < pages → getBit b (s + j) = false

/-- A run of `pages` tracked pages, all clear. -/
def ClearRun (p : Pmm) (pages s : ℕ) : Prop :=
  s + pages ≤ p.totalPagesCnt ∧ ClearAt p.bitmap pages s

/-- **The search misses nothing.**  The invariant is that no run of the length asked for begins before
the clear pages that end at `i`: a run that began there would have been found or contains a used page. -/
lemma allocScan_first (b : Bitmap) (pages n i run start : ℕ) (hrun : run < pages)
    (hend : run ≠ 0 → start + run = i) (hbefore : ∀ s, s + run < i → ¬ ClearAt b pages s) :
    (∀ s, allocScan b pages n i run start = some s → ∀ s' < s, ¬ ClearAt b pages s') ∧
      (allocScan b pages n i run start = none → ∀ s, s + pages ≤ i + n → ¬ ClearAt b pages s) := by
  fun_induction allocScan b pages n i run start
  case case1 => exact ⟨by simp, fun _ s hs => hbefore s (by omega)⟩
  case case2 start' hfull =>
    refine ⟨?_, by simp⟩
    rintro _ ⟨⟩ s' hlt
    refine hbefore s' ?_
    dsimp only [start'] at hlt
    split_ifs at hlt <;> omega
  case case3 n i run start hbit start' hfull ih =>
    rw [Nat.add_right_comm] at ih
    refine ih (by omega) (fun _ => ?_) fun s hs => hbefore s (by omega)
    dsimp only [start']
    split_ifs <;> omega
  case case4 n i run start hbit ih =>
    -- every run that begins among the clear pages before `i` would contain `i`
    rw [Nat.add_right_comm] at ih
    refine ih (by omega) (by omega) fun s hs hclear => ?_
    by_cases hearly : s + run < i
    · exact hbefore s hearly hclear
    · have hused := hclear (i - s) (by omega)
      rw [show s + (i - s) = i by omega] at hused
      simp [hused] at hbit

lemma ClearRun.le_freePagesCnt {p : Pmm} {pages s : ℕ} (h : ClearRun p pages s) (hcount : CountExact p) :
    pages ≤ p.freePagesCnt := by
  have := clearCount_setRun (b := p.bitmap) h.1 h.2
  rw [CountExact] at hcount
  omega

lemma ClearRun.alloc {p : Pmm} {n r : ℕ} (hr : ClearRun p n r) (hzero : bitTest p 0 = true)
    (hcount : CountExact p) (hn : 1 ≤ n) :
    ∃ s, s ≠ 0 ∧ IsLeast {s | ClearRun p n s} s ∧ n ≤ p.freePagesCnt ∧
      pmmAllocPages p n = (s * 4096,
        { p with bitmap := setRun p.bitmap s n, freePagesCnt := p.freePagesCnt - n }) := by
  have hfirst := allocScan_first p.bitmap n p.totalPagesCnt 0 0 0 (by omega) (by omega)
    (by omega)
  have henough := hr.le_freePagesCnt hcount
  cases hscan : allocScan p.bitmap n p.totalPagesCnt 0 0 0 with
  | none => exact absurd hr.2 (hfirst.2 hscan r (by have := hr.1; omega))
  | some s =>
    obtain ⟨hle, hclear⟩ := allocScan_sound (by omega) (by omega) (by omega) hscan
    refine ⟨s, ?_, ⟨⟨by omega, hclear⟩, fun s' hs' => ?_⟩, henough, ?_⟩
    · rintro rfl
      exact Bool.noConfusion (hzero.symm.trans (hclear 0 (by omega)))
    · by_contra hlt
      exact hfirst.1 s hscan s' (by omega) hs'.2
    · rw [pmmAllocPages, if_neg (by omega), if_neg (by omega), hscan]

lemma pmmAllocPages_none {p : Pmm} {n : ℕ} (hnone : ¬ ∃ s, ClearRun p n s) :
    pmmAllocPages p n = (0, p) := by
  rcases pmmAllocPages_cases p n with heq | ⟨s, _, _, hle, hclear, _⟩
  · exact heq
  · exact absurd ⟨s, hle, hclear⟩ hnone

lemma pmmAllocPages_one_eq_zero {p : Pmm} (hzero : bitTest p 0 = true) (hcount : CountExact p) :
    (pmmAllocPages p 1).1 = 0 ↔ p.freePagesCnt = 0 := by
  constructor
  · intro hnull
    rw [hcount]
    refine clearCount_eq_zero fun i hi => ?_
    by_contra hclear
    have hrun : ClearRun p 1 i := by
      refine ⟨by omega, fun j hj => ?_⟩
      rw [show i + j = i by omega]
      exact Bool.eq_false_iff.mpr hclear
    obtain ⟨s, hs, -, -, heq⟩ := hrun.alloc hzero hcount le_rfl
    rw [heq] at hnull
    have : s * 4096 = 0 := hnull
    omega
  · intro hempty
    rw [pmmAllocPages, if_neg (by omega), if_pos (by omega)]

/-- **First fit, exactly.**  Without a clear run of `n` pages the allocation returns 0 and changes
nothing.  With one, it returns the address of the lowest, sets exactly its bits and lowers the count
by `n`. -/
theorem pmmAllocPages_first_fit {p : Pmm} {n : ℕ} (hzero : bitTest p 0 = true) (hcount : CountExact p)
    (hn : 1 ≤ n) :
    ((¬ ∃ s, ClearRun p n s) → pmmAllocPages p n = (0, p)) ∧
      ((∃ s, ClearRun p n s) → ∃ s, IsLeast {s | ClearRun p n s} s ∧
        (pmmAllocPages p n).1 = 4096 * s ∧ (pmmAllocPages p n).1 ≠ 0 ∧
        (∀ i, bitTest (pmmAllocPages p n).2 i = (decide (s ≤ i ∧ i < s + n) || bitTest p i)) ∧
        (pmmAllocPages p n).2.freePagesCnt + n = p.freePagesCnt ∧
        (pmmAllocPages p n).2.totalPagesCnt = p.totalPagesCnt ∧
        (pmmAllocPages p n).2.ready = p.ready) := by
  refine ⟨pmmAllocPages_none, fun ⟨r, hr⟩ => ?_⟩
  obtain ⟨s, hs, hleast, henough, heq⟩ := hr.alloc hzero hcount hn
  rw [heq]
  refine ⟨s, hleast, Nat.mul_comm _ _, ?_, fun i => getBit_setRun p.bitmap s n i, ?_, rfl, rfl⟩
  · show s * 4096 ≠ 0
    omega
  · show p.freePagesCnt - n + n = p.freePagesCnt
    omega

lemma smallPmm_countExact : CountExact smallPmm := by
  rw [smallPmm_eq]
  exact (clearCount_pmmWithFree (n := 1) (by decide)).symm

/-- Three pages of the eight free ones at 2 MiB: pages 512 to 514. -/
theorem pmmAllocPages_first_fit_small :
    (bitTest smallPmm 0 = true ∧ CountExact smallPmm ∧ ClearRun smallPmm 3 512) ∧
      ∃ s, IsLeast {s | ClearRun smallPmm 3 s} s ∧ (pmmAllocPages smallPmm 3).1 = 4096 * s := by
  have hzero : bitTest smallPmm 0 = true := (bitTest_smallPmm 0).mpr (by decide)
  have hrun : ClearRun smallPmm 3 512 := by
    refine ⟨by decide, fun j hj => Bool.eq_false_iff.mpr ((bitTest_smallPmm _).not.mpr ?_)⟩
    omega
  obtain ⟨s, hleast, haddr, _⟩ :=
    (pmmAllocPages_first_fit hzero smallPmm_countExact (by decide)).2 ⟨512, hrun⟩
  exact ⟨⟨hzero, smallPmm_countExact, hrun⟩, s, hleast, haddr⟩

/-! ## Ranges near the top of the address space -/

/-- `pmm_free_range` clears exactly the bits of the pages below 4 GiB that lie completely inside the
range. -/
def FreesInside (p : Pmm) (addr size : ℕ) : Prop :=
  ∀ i, bitTest (pmmFreeRange p addr size) i = true ↔
    bitTest p i = true ∧ ¬ (i < maxPages ∧ Inside i addr (addr + size))

/-- `pmm_reserve_range` sets exactly the bits of the pages below 4 GiB that meet the range. -/
def ReservesTouched (p : Pmm) (addr size : ℕ) : Prop :=
  ∀ i, bitTest (pmmReserveRange p addr size) i = true ↔
    bitTest p i = true ∨ (i < maxPages ∧ Touches i addr (addr + size))

variable {p : Pmm} {addr size : ℕ}

/-- The end of a range up to `2 ^ 64` is computed as 0, and the call does nothing. -/
lemma bitTest_pmmFreeRange_top (h : addr + size = 2 ^ 64) (i : ℕ) :
    bitTest (pmmFreeRange p addr size) i = bitTest p i := by
  rw [bitTest_pmmFreeRange_rounded, h, if_neg (by omega)]

/-- A start inside the last page is rounded up to 0: the pages below 4 GiB are all freed. -/
lemma bitTest_pmmFreeRange_wrapped (hpos : 1 ≤ size) (hstart : 2 ^ 64 < addr + 4096)
    (hend : addr + size < 2 ^ 64) (i : ℕ) :
    bitTest (pmmFreeRange p addr size) i
      = if i < maxPages ∧ i < p.totalPagesCnt then false else bitTest p i := by
  rw [bitTest_pmmFreeRange_rounded]
  refine if_congr ?_ rfl rfl
  simp only [maxPages, maxPhysBytes, pageSize]
  omega

lemma bitTest_pmmReserveRange_top (h : 2 ^ 64 < addr + size + 4096) (hend : addr + size ≤ 2 ^ 64)
    (i : ℕ) : bitTest (pmmReserveRange p addr size) i = bitTest p i := by
  rw [bitTest_pmmReserveRange_rounded, if_neg (by omega)]

/-- An allocator with every page used. -/
def pmmFull : Pmm := pmmWithFree 0

lemma bitTest_pmmFull (i : ℕ) : bitTest pmmFull i = true ↔ i < maxPages := by
  rw [pmmFull, bitTest_pmmWithFree]
  omega

lemma bitTest_pmmStatic (i : ℕ) : bitTest pmmStatic i = false := by
  simp [bitTest, getBit_eq_testBit, pmmStatic]

lemma freesInside_iff (hpos : 1 ≤ size) (hend : addr + size ≤ 2 ^ 64) :
    (∀ p : Pmm, p.totalPagesCnt = maxPages → FreesInside p addr size) ↔
      addr + size < 2 ^ 64 ∧ addr + 4096 ≤ 2 ^ 64 ∨
        addr + size = 2 ^ 64 ∧ maxPhysBytes < addr + 4096 := by
  constructor
  · intro h
    -- the last page below 4 GiB, and page 0, of an allocator with every page used
    have hlast := h pmmFull rfl (maxPages - 1)
    have hfirst := h pmmFull rfl 0
    by_cases htop : addr + size = 2 ^ 64
    · rw [bitTest_pmmFreeRange_top htop] at hlast
      simp only [bitTest_pmmFull, Inside, maxPages, maxPhysBytes, pageSize] at hlast ⊢
      omega
    · refine Or.inl ⟨by omega, ?_⟩
      by_contra hwrap
      rw [bitTest_pmmFreeRange_wrapped hpos (by omega) (by omega), if_pos (by decide)] at hfirst
      simp only [bitTest_pmmFull, Inside] at hfirst
      have hin := hfirst.not.mp Bool.false_ne_true
      simp only [maxPages, maxPhysBytes, pageSize] at hin
      omega
  · rintro (⟨hlt, hstart⟩ | ⟨htop, hhigh⟩) p htotal i
    · rw [bitTest_pmmFreeRange hlt (by omega), htotal]
      tauto
    · rw [bitTest_pmmFreeRange_top htop, and_iff_left]
      simp only [Inside, maxPages, maxPhysBytes, pageSize] at hhigh ⊢
      omega

lemma reservesTouched_iff (hend : addr + size ≤ 2 ^ 64) (hpos : 1 ≤ size) :
    (∀ p : Pmm, p.totalPagesCnt = maxPages → ReservesTouched p addr size) ↔
      addr + size + 4096 ≤ 2 ^ 64 ∨ maxPhysBytes ≤ addr := by
  constructor
  · intro h
    by_contra hno
    -- an allocator with every page free
    have hpage := h { pmmStatic with totalPagesCnt := maxPages } rfl (addr / 4096)
    rw [bitTest_pmmReserveRange_top (by omega) hend] at hpage
    have hclear : bitTest { pmmStatic with totalPagesCnt := maxPages } (addr / 4096) = false :=
      bitTest_pmmStatic _
    rw [hclear] at hpage
    simp only [Bool.false_eq_true, false_or, false_iff, Touches, maxPages, maxPhysBytes,
      pageSize] at hpage hno
    omega
  · rintro hor p htotal i
    by_cases hlow : addr + size + 4096 ≤ 2 ^ 64
    · rw [bitTest_pmmReserveRange (by omega), htotal]
      tauto
    · have hhigh := hor.resolve_left hlow
      rw [bitTest_pmmReserveRange_top (by omega) hend, or_iff_left]
      simp only [Touches, maxPages, maxPhysBytes, pageSize] at hhigh ⊢
      omega

/-- **When the range calls are exact.**  For a range of at least one byte that ends at or below
`2 ^ 64`, freeing is exact in every state of the allocator just when no rounding wraps, or the range
ends at `2 ^ 64` and no page below 4 GiB lies inside it; reserving just when the end does not lie
in the last page, or the range begins above the tracked memory. -/
theorem range_calls_exact_iff {addr size : ℕ} (hpos : 1 ≤ size) (hend : addr + size ≤ 2 ^ 64) :
    ((∀ p : Pmm, p.totalPagesCnt = maxPages → FreesInside p addr size) ↔
      addr + size < 2 ^ 64 ∧ addr + 4096 ≤ 2 ^ 64 ∨
        addr + size = 2 ^ 64 ∧ maxPhysBytes < addr + 4096) ∧
    ((∀ p : Pmm, p.totalPagesCnt = maxPages → ReservesTouched p addr size) ↔
      addr + size + 4096 ≤ 2 ^ 64 ∨ maxPhysBytes ≤ addr) :=
  ⟨freesInside_iff hpos hend, reservesTouched_iff hend hpos⟩

/-- The low megabyte. -/
theorem range_calls_exact_low :
    FreesInside smallPmm 0 0x100000 ∧ ReservesTouched smallPmm 0 0x100000 := by
  obtain ⟨hfree, hreserve⟩ := @range_calls_exact_iff 0 0x100000 (by decide) (by decide)
  exact ⟨hfree.mpr (Or.inl ⟨by decide, by decide⟩) smallPmm rfl,
    hreserve.mpr (Or.inl (by decide)) smallPmm rfl⟩

/-- Freeing one byte of the last page of the address space frees page 0, and reserving everything from
1 MiB on reserves nothing. -/
theorem range_calls_wrap :
    (bitTest smallPmm 0 = true ∧ ¬ Inside 0 (2 ^ 64 - 4095) (2 ^ 64 - 4095 + 1) ∧
      bitTest (pmmFreeRange smallPmm (2 ^ 64 - 4095) 1) 0 = false) ∧
    (bitTest smallPmm 512 = false ∧ Touches 512 0x100000 (0x100000 + (2 ^ 64 - 0x100000)) ∧
      bitTest (pmmReserveRange smallPmm 0x100000 (2 ^ 64 - 0x100000)) 512 = false) := by
  have hclear : bitTest smallPmm 512 = false :=
    Bool.eq_false_iff.mpr ((bitTest_smallPmm 512).not.mpr (by omega))
  refine ⟨⟨(bitTest_smallPmm 0).mpr (by decide), ?_, ?_⟩, hclear, ?_, ?_⟩
  · simp only [Inside]
    omega
  · rw [bitTest_pmmFreeRange_wrapped (by decide) (by decide) (by decide), if_pos (by decide)]
  · simp only [Touches]
    omega
  · rw [bitTest_pmmReserveRange_top (by decide) (by decide), hclear]

end MyOs
