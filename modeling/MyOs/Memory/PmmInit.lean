import MyOs.Memory.PmmLive
import MyOs.Lib.Bytes

/-!
# Booting the page allocator

`pmm_init`: everything is marked used, the multiboot2 tags are searched for the memory map, the
pages of its available entries are freed, and then the low megabyte, the kernel image and the
multiboot block itself are reserved again.  The tag walk and the entry walk take their strides
from the block, so both carry a fuel argument and `none` means that a walk did not end.

The order matters for safety: the three reservations come last, so whatever the memory map says,
their pages are used when `pmm_init` returns (`pmmInit_liveOk`), and no later allocation can
return one of them (`pmm_runs_keep_allocations_apart`).
-/

namespace MyOs

open Lib

/-- What the boot loader and the linker hand over.  `boot.S` loads the block's address as a 32-bit
value, and the image lies inside the identity map of the boot page tables. -/
structure Boot where
  mem : Memory
  mb2 : ℕ
  kernelStart : ℕ
  kernelEnd : ℕ
  mb2_lt : mb2 < 2 ^ 32
  image_le : kernelStart ≤ kernelEnd
  image_fits : kernelEnd ≤ maxPhysBytes

/-- A `uint32_t` in memory. -/
def read32 (m : Memory) (a : ℕ) : ℕ := loadLE m 4 a

/-- A `uint64_t` in memory. -/
def read64 (m : Memory) (a : ℕ) : ℕ := loadLE m 8 a

def mb2Align8 (x : ℕ) : ℕ := (x + 7) % 2 ^ 32 &&& (2 ^ 32 - 1 - 7)

def mb2TagEnd : ℕ := 0

def mb2TagMmap : ℕ := 6

/-- The tag walk of `pmm_init`: the address of the first memory-map tag, or nothing when the end
tag comes first. -/
def findMmap (m : Memory) : (fuel tag : ℕ) → Option (Option ℕ)
  | 0, _ => none
  | fuel + 1, tag =>
    if read32 m tag = mb2TagEnd then some none
    else if read32 m tag = mb2TagMmap then some (some tag)
    else findMmap m fuel ((tag + mb2Align8 (read32 m (tag + 4))) % 2 ^ 64)

/-- The entry walk of `pmm_init`: available entries (type 1) are freed. -/
def freeEntries (m : Memory) (fin entrySize : ℕ) : (fuel : ℕ) → Pmm → (entry : ℕ) → Option Pmm
  | 0, _, _ => none
  | fuel + 1, p, entry =>
    if entry < fin then
      let p :=
        if read32 m (entry + 16) = 1 then pmmFreeRange p (read64 m entry) (read64 m (entry + 8))
        else p
      freeEntries m fin entrySize fuel p (entry + entrySize)
    else some p

/-- Everything used: the state after the `memset` of `pmm_init`. -/
def pmmAllUsed (p : Pmm) : Pmm :=
  { p with
    bitmap := fun i => if i < maxPages / 8 then 0xFF else p.bitmap i
    totalPagesCnt := maxPages }

/-- The three reservations of `pmm_init`. -/
def reserveBootPages (b : Boot) (p : Pmm) : Pmm :=
  let p := pmmReserveRange p 0 0x100000
  let p := pmmReserveRange p b.kernelStart (b.kernelEnd - b.kernelStart)
  pmmReserveRange p b.mb2 (read32 b.mem b.mb2)

/-- `pmm_init`, with whether a memory map was found. -/
def pmmInit (fuel : ℕ) (b : Boot) (p : Pmm) : Option (Pmm × Bool) :=
  let p := pmmAllUsed p
  match findMmap b.mem fuel (b.mb2 + 8) with
  | none => none
  | some none => some (pmmRecountFree p, false)
  | some (some mmap) =>
    match freeEntries b.mem (mmap + read32 b.mem (mmap + 4)) (read32 b.mem (mmap + 8)) fuel p
        (mmap + 16) with
    | none => none
    | some p =>
      let p := pmmRecountFree (reserveBootPages b p)
      some ({ p with ready := true }, true)

/-! ## What the range functions do to the bits -/

/-- The body of a page loop writes `v` to the page's bit. -/
structure Writes (touch : Pmm → ℕ → Pmm) (v : Bool) : Prop where
  total : ∀ p i, (touch p i).totalPagesCnt = p.totalPagesCnt
  bit : ∀ p i j, bitTest (touch p i) j = if i = j then v else bitTest p j

lemma writes_reserveRangeTouch : Writes reserveRangeTouch true where
  total p i := by
    simp only [reserveRangeTouch]
    split_ifs <;> rfl
  bit p i j := by
    have hset : bitTest (bitSet p i) j = if i = j then true else bitTest p j := by
      by_cases hij : i = j <;> simp [hij]
    rw [reserveRangeTouch, ← hset]
    split_ifs with hclear
    · dsimp only
      split_ifs <;> rfl
    · rw [bitTest_bitSet, eq_comm, Bool.or_eq_right_iff_imp]
      intro hij
      simpa [← of_decide_eq_true hij] using hclear

lemma writes_freeRangeTouch : Writes freeRangeTouch false where
  total p i := by
    simp only [freeRangeTouch]
    split_ifs <;> rfl
  bit p i j := by
    have hclear : bitTest (bitClear p i) j = if i = j then false else bitTest p j := by
      by_cases hij : i = j <;> simp [hij]
    rw [freeRangeTouch, ← hclear]
    split_ifs with hset
    · dsimp only
      split_ifs <;> rfl
    · rw [bitTest_bitClear, eq_comm, Bool.and_eq_right_iff_imp]
      intro hj
      simpa using fun hij : i = j => hset (hij ▸ hj)

section Loops

variable {touch : Pmm → ℕ → Pmm} {v : Bool} (h : Writes touch v)
include h

lemma rangeLoop_bits (n : ℕ) (p : Pmm) (a : ℕ) :
    (rangeLoop touch n p a).totalPagesCnt = p.totalPagesCnt ∧
      ∀ i, bitTest (rangeLoop touch n p a) i =
        if a / 4096 ≤ i ∧ i < a / 4096 + n ∧ i < p.totalPagesCnt then v else bitTest p i := by
  induction n generalizing p a with
  | zero =>
    refine ⟨rfl, fun i => ?_⟩
    rw [if_neg (by omega)]
    rfl
  | succ n ih =>
    rw [rangeLoop, pageSize]
    split_ifs with hend
    · refine ⟨rfl, fun i => ?_⟩
      rw [if_neg (by omega)]
    · obtain ⟨htotal, hbit⟩ := ih (touch p (a / 4096)) (a + 4096)
      refine ⟨htotal.trans (h.total _ _), fun i => ?_⟩
      rw [hbit, h.bit, h.total, show (a + 4096) / 4096 = a / 4096 + 1 by omega]
      by_cases hi : a / 4096 = i
      · rw [if_pos hi, if_neg (by omega), if_pos (by omega)]
      · rw [if_neg hi]
        exact if_congr (by omega) rfl rfl

/-- A loop over the pages of `[start, fin)`, cut off at 4 GiB, writes `v` to the bits of the tracked
pages of that range. -/
lemma rangeLoop_clipped (p : Pmm) {start fin : ℕ} (hstart : start % 4096 = 0) (hfin : fin % 4096 = 0)
    (i : ℕ) :
    bitTest (if fin ≤ start then p
        else if start ≥ maxPhysBytes then p
        else rangeLoop touch (((if fin > maxPhysBytes then maxPhysBytes else fin) - start) / pageSize)
          p start) i
      = if start ≤ i * 4096 ∧ (i + 1) * 4096 ≤ fin ∧ i < maxPages ∧ i < p.totalPagesCnt then v
        else bitTest p i := by
  simp only [maxPages, maxPhysBytes, pageSize]
  split_ifs
  any_goals first | rfl | omega
  all_goals
    rw [(rangeLoop_bits h _ p _).2 i]
    first | exact if_pos (by omega) | exact if_neg (by omega)

end Loops

/-- The page meets the byte range `[lo, hi)` as rounding outward sees it. -/
def Touches (page lo hi : ℕ) : Prop := page * 4096 < hi ∧ lo < (page + 1) * 4096

lemma bitTest_pmmReserveRange_rounded (p : Pmm) (addr size i : ℕ) :
    bitTest (pmmReserveRange p addr size) i
      = if addr % 2 ^ 64 / 4096 * 4096 ≤ i * 4096 ∧
          (i + 1) * 4096 ≤ ((addr + size) % 2 ^ 64 + 4095) % 2 ^ 64 / 4096 * 4096 ∧
          i < maxPages ∧ i < p.totalPagesCnt then true
        else bitTest p i := by
  simp only [pmmReserveRange, alignDownU64_page, alignUpU64_page]
  exact rangeLoop_clipped writes_reserveRangeTouch p
    (Nat.mul_mod_left _ _) (Nat.mul_mod_left _ _) i

/-- A reservation that does not run past the end of the address space sets the bits of the
tracked pages below 4 GiB that meet it, and no other. -/
theorem bitTest_pmmReserveRange {p : Pmm} {addr size : ℕ} (hwrap : addr + size + 4095 < 2 ^ 64)
    (i : ℕ) :
    bitTest (pmmReserveRange p addr size) i = true ↔
      (Touches i addr (addr + size) ∧ i < maxPages ∧ i < p.totalPagesCnt) ∨ bitTest p i = true := by
  rw [bitTest_pmmReserveRange_rounded, Nat.mod_eq_of_lt (a := addr + size) (by omega),
    Nat.mod_eq_of_lt (a := addr + size + 4095) (by omega), Nat.mod_eq_of_lt (a := addr) (by omega),
    Touches]
  split_ifs with hin
  · simp only [true_iff]; omega
  · rw [or_iff_right (by omega)]

@[simp] lemma pmmReserveRange_totalPagesCnt (p : Pmm) (addr size : ℕ) :
    (pmmReserveRange p addr size).totalPagesCnt = p.totalPagesCnt := by
  simp only [pmmReserveRange]
  split_ifs <;> first | rfl | exact (rangeLoop_bits writes_reserveRangeTouch _ p _).1

/-- The page lies completely inside the byte range `[lo, hi)`. -/
def Inside (page lo hi : ℕ) : Prop := lo ≤ page * 4096 ∧ (page + 1) * 4096 ≤ hi

lemma bitTest_pmmFreeRange_rounded (p : Pmm) (addr size i : ℕ) :
    bitTest (pmmFreeRange p addr size) i
      = if (addr + 4095) % 2 ^ 64 / 4096 * 4096 ≤ i * 4096 ∧
          (i + 1) * 4096 ≤ (addr + size) % 2 ^ 64 / 4096 * 4096 ∧
          i < maxPages ∧ i < p.totalPagesCnt then false
        else bitTest p i := by
  simp only [pmmFreeRange, alignDownU64_page, alignUpU64_page, Nat.mod_mod]
  exact rangeLoop_clipped writes_freeRangeTouch p
    (Nat.mul_mod_left _ _) (Nat.mul_mod_left _ _) i

/-- A free range that does not run past the end of the address space clears the bits of the
tracked pages below 4 GiB that lie completely inside it, and no other. -/
theorem bitTest_pmmFreeRange {p : Pmm} {addr size : ℕ} (hwrap : addr + size < 2 ^ 64)
    (hstart : addr + 4095 < 2 ^ 64) (i : ℕ) :
    bitTest (pmmFreeRange p addr size) i = true ↔
      bitTest p i = true ∧ ¬ (Inside i addr (addr + size) ∧ i < maxPages ∧ i < p.totalPagesCnt) := by
  rw [bitTest_pmmFreeRange_rounded, Nat.mod_eq_of_lt (a := addr + size) (by omega),
    Nat.mod_eq_of_lt (a := addr + 4095) (by omega), Inside]
  split_ifs with hin
  · simp only [false_iff]; omega
  · rw [and_iff_left (by omega)]

lemma pmmFreeRange_totalPagesCnt (p : Pmm) (addr size : ℕ) :
    (pmmFreeRange p addr size).totalPagesCnt = p.totalPagesCnt := by
  simp only [pmmFreeRange]
  split_ifs <;> first | rfl | exact (rangeLoop_bits writes_freeRangeTouch _ p _).1

/-! ## The state after boot -/

/-- A page of the low megabyte, of the kernel image or of the multiboot block. -/
def Boot.Reserved (b : Boot) (page : ℕ) : Prop :=
  page < maxPages ∧
    (Touches page 0 0x100000 ∨ Touches page b.kernelStart b.kernelEnd ∨
      Touches page b.mb2 (b.mb2 + read32 b.mem b.mb2))

lemma freeEntries_total {m : Memory} {fin entrySize : ℕ} :
    ∀ {fuel : ℕ} {p q : Pmm} {entry : ℕ}, freeEntries m fin entrySize fuel p entry = some q →
      q.totalPagesCnt = p.totalPagesCnt := by
  intro fuel
  induction fuel with
  | zero => intro p q entry h; simp [freeEntries] at h
  | succ fuel ih =>
    intro p q entry h
    rw [freeEntries] at h
    split_ifs at h
    · exact (ih h).trans (pmmFreeRange_totalPagesCnt p _ _)
    · exact ih h
    · rw [Option.some.injEq] at h; rw [h]

lemma reserveBootPages_used (b : Boot) {p : Pmm} (htotal : p.totalPagesCnt = maxPages) {page : ℕ}
    (hres : b.Reserved page) : bitTest (reserveBootPages b p) page = true := by
  have hmb2 : read32 b.mem b.mb2 < 2 ^ 32 := loadLE_lt b.mem 4 b.mb2
  have hlt := b.mb2_lt
  have hfit := b.image_fits
  have hle := b.image_le
  rw [maxPhysBytes] at hfit
  rw [reserveBootPages, bitTest_pmmReserveRange (by omega), bitTest_pmmReserveRange (by omega),
    bitTest_pmmReserveRange (by omega)]
  simp only [pmmReserveRange_totalPagesCnt, htotal, Nat.zero_add,
    show b.kernelStart + (b.kernelEnd - b.kernelStart) = b.kernelEnd by omega]
  obtain ⟨hpage, h | h | h⟩ := hres
  · exact Or.inr (Or.inr (Or.inl ⟨h, hpage, hpage⟩))
  · exact Or.inr (Or.inl ⟨h, hpage, hpage⟩)
  · exact Or.inl ⟨h, hpage, hpage⟩

/-- **Boot establishes the allocator's invariant**, with nothing allocated yet, whatever state the
static variables were in before and whatever the memory map says. -/
theorem pmmInit_liveOk {fuel : ℕ} {b : Boot} {p0 p : Pmm}
    (h : pmmInit fuel b p0 = some (p, true)) : LiveOk b.Reserved p [] := by
  simp only [pmmInit] at h
  split at h
  · exact absurd h (by simp)
  · exact absurd h (by simp)
  · split at h
    · exact absurd h (by simp)
    · next q hq =>
        have htotal : q.totalPagesCnt = maxPages := (freeEntries_total hq).trans rfl
        simp only [Option.some.injEq, Prod.mk.injEq, and_true] at h
        subst h
        refine ⟨?_, ?_, ?_, ?_, by simp, by simp, by simp⟩
        · simpa [pmmRecountFree, reserveBootPages] using htotal
        · exact countExact_recount _
        · exact ⟨by decide, Or.inl ⟨by decide, by decide⟩⟩
        · exact fun page hres => reserveBootPages_used b htotal hres

/-- **The allocator over whole runs.**  After a boot that found a memory map, in every run of
allocations and of frees of live allocations, the cached count is the number of clear bits, the
live runs are pairwise disjoint, and none of them contains a page of the low megabyte, of the
kernel image or of the multiboot block. -/
theorem pmm_runs_keep_allocations_apart {fuel : ℕ} {b : Boot} {p₀ p : Pmm}
    (h : pmmInit fuel b p₀ = some (p, true)) {ops : List PmmOp}
    (hops : Admissible PmmRun.Ok PmmRun.step ⟨p, []⟩ ops) :
    let s := run PmmRun.step ⟨p, []⟩ ops
    s.pmm.freePagesCnt = clearCount s.pmm.bitmap s.pmm.totalPagesCnt ∧
      s.live.Pairwise RunsDisjoint ∧
      ∀ r ∈ s.live, ∀ page, InRun r page →
        ¬ Touches page 0 0x100000 ∧ ¬ Touches page b.kernelStart b.kernelEnd ∧
          ¬ Touches page b.mb2 (b.mb2 + read32 b.mem b.mb2) := by
  intro s
  have hs : LiveOk b.Reserved s.pmm s.live := (pmmInit_liveOk h).run hops
  refine ⟨hs.count, hs.disjoint, fun r hr page hpage => ?_⟩
  have hlt : page < maxPages := by
    have htracked := (hs.runs r hr).tracked
    rw [hs.total] at htracked
    exact lt_of_lt_of_le hpage.2 htracked
  have hnot := hs.unreserved r hr page hpage
  exact ⟨fun ht => hnot ⟨hlt, Or.inl ht⟩, fun ht => hnot ⟨hlt, Or.inr (Or.inl ht)⟩,
    fun ht => hnot ⟨hlt, Or.inr (Or.inr ht)⟩⟩

/-- A machine with 32 KiB of available memory at 2 MiB, the multiboot block at 64 KiB and a kernel
image of half a megabyte. -/
def smallBoot : Boot where
  mem :=
    let m : Memory := fun _ => 0
    let m := storeLE m 4 0x10000 56           -- total_size
    let m := storeLE m 4 0x10008 6            -- the memory-map tag: type, size, entry_size
    let m := storeLE m 4 0x1000C 40
    let m := storeLE m 4 0x10010 24
    let m := storeLE m 8 0x10018 0x200000     -- its one entry: addr, len, type
    let m := storeLE m 8 0x10020 0x8000
    storeLE m 4 0x10028 1
  mb2 := 0x10000
  kernelStart := 0x100000
  kernelEnd := 0x180000
  mb2_lt := by decide
  image_le := by decide
  image_fits := by decide

/-- The variables of `pmm.c` before `pmm_init`. -/
def pmmStatic : Pmm :=
  { bitmap := fun _ => 0, freePagesCnt := 0, totalPagesCnt := 0, ready := false }

/-- The allocator of `smallBoot`: the eight pages from 2 MiB on, one byte of the bitmap, are free. -/
def smallPmm : Pmm :=
  { bitmap := fun k => if k < maxPages / 8 then if k = 64 then 0 else 0xFF else 0
    freePagesCnt := 8
    totalPagesCnt := maxPages
    ready := true }

/-- An allocator with `n` bytes of clear bits, for the pages from 2 MiB on. -/
def pmmWithFree (n : ℕ) : Pmm :=
  { bitmap := fun k => if k < maxPages / 8 then if 64 ≤ k ∧ k < 64 + n then 0 else 0xFF else 0
    freePagesCnt := 8 * n
    totalPagesCnt := maxPages
    ready := true }

lemma smallPmm_eq : smallPmm = pmmWithFree 1 := by
  have hbitmap : smallPmm.bitmap = (pmmWithFree 1).bitmap := by
    funext k
    simp only [smallPmm, pmmWithFree, show 64 ≤ k ∧ k < 64 + 1 ↔ k = 64 by omega]
  rw [smallPmm, pmmWithFree, Pmm.mk.injEq]
  exact ⟨hbitmap, rfl, rfl, rfl⟩

lemma bitTest_pmmWithFree (n i : ℕ) :
    bitTest (pmmWithFree n) i = true ↔ i < maxPages ∧ ¬ (512 ≤ i ∧ i < 512 + 8 * n) := by
  have hmod : i % 8 < 8 := Nat.mod_lt _ (by decide)
  rw [bitTest, getBit_eq_testBit]
  simp only [pmmWithFree, maxPages, maxPhysBytes, pageSize]
  split_ifs with h1 h2
  · simp only [UInt8.toNat_zero, Nat.zero_testBit, Bool.false_eq_true, false_iff]
    omega
  · have hff : (0xFF : UInt8).toNat = 2 ^ 8 - 1 := rfl
    rw [hff, Nat.testBit_two_pow_sub_one, decide_eq_true_eq]
    omega
  · simp only [UInt8.toNat_zero, Nat.zero_testBit, Bool.false_eq_true, false_iff]
    omega

lemma bitTest_smallPmm (i : ℕ) :
    bitTest smallPmm i = true ↔ i < maxPages ∧ ¬ (512 ≤ i ∧ i < 520) := by
  rw [smallPmm_eq]
  exact bitTest_pmmWithFree 1 i

lemma clearCount_pmmWithFree {n : ℕ} (hn : n ≤ 64) :
    clearCount (pmmWithFree n).bitmap maxPages = 8 * n := by
  have hmax : 512 + 8 * n ≤ maxPages := by
    simp only [maxPages, maxPhysBytes, pageSize]
    omega
  have hclear : ∀ j, j < 8 * n → getBit (pmmWithFree n).bitmap (512 + j) = false := by
    intro j hj
    exact Bool.eq_false_iff.mpr ((bitTest_pmmWithFree n (512 + j)).not.mpr (by omega))
  have hrest : clearCount (setRun (pmmWithFree n).bitmap 512 (8 * n)) maxPages = 0 := by
    refine clearCount_eq_zero fun i hi => ?_
    rw [getBit_setRun, Bool.or_eq_true, decide_eq_true_eq]
    by_cases hin : 512 ≤ i ∧ i < 512 + 8 * n
    · exact Or.inl hin
    · exact Or.inr ((bitTest_pmmWithFree n i).mpr ⟨hi, hin⟩)
  have := clearCount_setRun (s := 512) hmax hclear
  omega

/-- Booting with a multiboot block and a kernel image as in `smallBoot` and `n` times 32 KiB of
memory. -/
lemma pmmInit_pmmWithFree {b : Boot} {n : ℕ} (hn : n ≤ 64) (hmb2 : b.mb2 = 0x10000)
    (himage : b.kernelStart = 0x100000 ∧ b.kernelEnd = 0x180000)
    (hfind : findMmap b.mem 2 (b.mb2 + 8) = some (some 0x10008))
    (hblock : (0x10008 + read32 b.mem (0x10008 + 4), read32 b.mem (0x10008 + 8),
      read32 b.mem (0x10018 + 16), read64 b.mem 0x10018, read64 b.mem (0x10018 + 8),
      read32 b.mem 0x10000) = (0x10030, 24, 1, 0x200000, 0x8000 * n, 56)) :
    pmmInit 2 b pmmStatic = some (pmmWithFree n, true) := by
  simp only [Prod.mk.injEq] at hblock
  obtain ⟨hend, hentry, htype, haddr, hlen, hsize⟩ := hblock
  set freed := pmmFreeRange (pmmAllUsed pmmStatic) 0x200000 (0x8000 * n) with hfreed
  have hentries : freeEntries b.mem 0x10030 24 2 (pmmAllUsed pmmStatic) (0x10008 + 16) = some freed := by
    simp only [freeEntries, Nat.reduceAdd, Nat.reduceLT, if_true, if_false] at htype haddr hlen ⊢
    rw [if_pos htype, haddr, hlen]
  have hinit : pmmInit 2 b pmmStatic =
      some ({ pmmRecountFree (reserveBootPages b freed) with ready := true }, true) := by
    simp only [pmmInit, hfind, hend, hentry, hentries]
  -- the bits before and after the reservations
  have hused : ∀ i, bitTest (pmmAllUsed pmmStatic) i = true ↔ i < maxPages := by
    intro i
    have hmap : (pmmAllUsed pmmStatic).bitmap = (pmmWithFree 0).bitmap := by
      funext k
      simp [pmmAllUsed, pmmStatic, pmmWithFree, show ¬ (64 ≤ k ∧ k < 64) by omega]
    rw [bitTest, hmap, ← bitTest, bitTest_pmmWithFree]
    omega
  have hbits : ∀ i, bitTest (reserveBootPages b freed) i = bitTest (pmmWithFree n) i := by
    intro i
    rw [Bool.eq_iff_iff, bitTest_pmmWithFree, reserveBootPages,
      bitTest_pmmReserveRange (by rw [hmb2, hsize]; decide),
      bitTest_pmmReserveRange (by rw [himage.1, himage.2]; decide), bitTest_pmmReserveRange (by decide),
      bitTest_pmmFreeRange (by omega) (by decide), hused, hmb2, hsize, himage.1, himage.2]
    simp only [Touches, Inside, pmmReserveRange_totalPagesCnt, hfreed, pmmFreeRange_totalPagesCnt,
      pmmAllUsed, maxPages, maxPhysBytes, pageSize]
    omega
  have hmap : (reserveBootPages b freed).bitmap = (pmmWithFree n).bitmap := bitmap_ext hbits
  have htotal : (reserveBootPages b freed).totalPagesCnt = maxPages := by
    simp [reserveBootPages, hfreed, pmmFreeRange_totalPagesCnt, pmmAllUsed]
  rw [hinit, pmmRecountFree, hmap, htotal, clearCount_pmmWithFree hn]
  rfl

lemma smallPmm_boot : pmmInit 2 smallBoot pmmStatic = some (smallPmm, true) := by
  rw [smallPmm_eq]
  exact pmmInit_pmmWithFree (by decide) rfl ⟨rfl, rfl⟩ (by decide) (by decide)

/-- `smallBoot` with 64 KiB of memory. -/
def roomyBoot : Boot :=
  { smallBoot with mem := storeLE smallBoot.mem 8 0x10020 0x10000 }

lemma roomyBoot_init : pmmInit 2 roomyBoot pmmStatic = some (pmmWithFree 2, true) :=
  pmmInit_pmmWithFree (by decide) rfl ⟨rfl, rfl⟩ (by decide) (by decide)

lemma admissible_alloc_alloc_free (p : Pmm) (n m : ℕ) :
    Admissible PmmRun.Ok PmmRun.step ⟨p, []⟩
      [.alloc n, .alloc m, .free (pmmAllocPages p n).1 n] := by
  refine ⟨trivial, trivial, ?_, trivial⟩
  by_cases hz : (pmmAllocPages p n).1 = 0
  · exact Or.inr hz
  · refine Or.inl ?_
    simp only [PmmRun.step, if_neg hz]
    split_ifs <;> simp

theorem pmm_runs_keep_allocations_apart_small :
    let s := run PmmRun.step ⟨smallPmm, []⟩
      [.alloc 3, .alloc 2, .free (pmmAllocPages smallPmm 3).1 3]
    s.pmm.freePagesCnt = clearCount s.pmm.bitmap s.pmm.totalPagesCnt ∧
      s.live.Pairwise RunsDisjoint := by
  intro s
  have := pmm_runs_keep_allocations_apart smallPmm_boot (admissible_alloc_alloc_free smallPmm 3 2)
  exact ⟨this.1, this.2.1⟩

end MyOs
