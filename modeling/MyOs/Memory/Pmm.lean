import MyOs.Base
import MyOs.Lib.Bitmap

/-!
# The physical page allocator

`src/pmm.c`: a bitmap with one bit for each page below 4 GiB (set means used), a cached count of
the free ones, and a first-fit search for runs of pages.  The state is the four static variables
of the file.

`pmmAllocPages_cases` and `bitTest_pmmFreePages` say what the two operations do to the bits; the
rest of the development uses these and does not look at the loops.  `CountExact` is the invariant
the allocator itself trusts: the cached count is the number of clear bits.
-/

namespace MyOs

open Lib

/-- `MAX_PHYS_BYTES`: 4 GiB, identity mapped. -/
abbrev maxPhysBytes : ℕ := 4 * 1024 * 1024 * 1024

abbrev maxPages : ℕ := maxPhysBytes / pageSize

/-- The static variables of `pmm.c`. -/
structure Pmm where
  bitmap : Bitmap
  freePagesCnt : ℕ
  totalPagesCnt : ℕ
  ready : Bool

def bitSet (p : Pmm) (idx : ℕ) : Pmm := { p with bitmap := setBit p.bitmap idx }

def bitClear (p : Pmm) (idx : ℕ) : Pmm := { p with bitmap := clearBit p.bitmap idx }

def bitTest (p : Pmm) (idx : ℕ) : Bool := getBit p.bitmap idx

def pmmRecountFree (p : Pmm) : Pmm :=
  { p with freePagesCnt := clearCount p.bitmap p.totalPagesCnt }

/-! ## Ranges -/

/-- The loop shared by the two range functions: `touch` is applied to the `n` pages from address
`a` on, and the first page past the tracked ones ends the loop. -/
def rangeLoop (touch : Pmm → ℕ → Pmm) : (n : ℕ) → Pmm → (a : ℕ) → Pmm
  | 0, p, _ => p
  | n + 1, p, a =>
    if a / pageSize ≥ p.totalPagesCnt then p
    else rangeLoop touch n (touch p (a / pageSize)) (a + pageSize)

/-- The body of the loop of `pmm_free_range`. -/
def freeRangeTouch (p : Pmm) (page : ℕ) : Pmm :=
  if bitTest p page then
    let p := bitClear p page
    if p.ready then { p with freePagesCnt := p.freePagesCnt + 1 } else p
  else p

/-- The body of the loop of `pmm_reserve_range`. -/
def reserveRangeTouch (p : Pmm) (page : ℕ) : Pmm :=
  if !bitTest p page then
    let p := bitSet p page
    if p.ready && p.freePagesCnt != 0 then { p with freePagesCnt := p.freePagesCnt - 1 } else p
  else p

/-- `pmm_free_range`: inward rounding, then the pages are marked free. -/
def pmmFreeRange (p : Pmm) (addr size : ℕ) : Pmm :=
  let start := alignUpU64 addr pageSize
  let fin := alignDownU64 ((addr + size) % 2 ^ 64) pageSize
  if fin ≤ start then p
  else if start ≥ maxPhysBytes then p
  else
    let fin := if fin > maxPhysBytes then maxPhysBytes else fin
    rangeLoop freeRangeTouch ((fin - start) / pageSize) p start

/-- `pmm_reserve_range`: outward rounding, then the pages are marked used. -/
def pmmReserveRange (p : Pmm) (addr size : ℕ) : Pmm :=
  let start := alignDownU64 addr pageSize
  let fin := alignUpU64 ((addr + size) % 2 ^ 64) pageSize
  if fin ≤ start then p
  else if start ≥ maxPhysBytes then p
  else
    let fin := if fin > maxPhysBytes then maxPhysBytes else fin
    rangeLoop reserveRangeTouch ((fin - start) / pageSize) p start

/-! ## Allocation -/

/-- The search of `pmm_alloc_pages`, with `n` pages left to look at from page `i` on: `run` clear
pages end just before `i`, the first of them `start`. -/
def allocScan (b : Bitmap) (pages : ℕ) : (n i run start : ℕ) → Option ℕ
  | 0, _, _, _ => none
  | n + 1, i, run, start =>
    if !getBit b i then
      let start := if run = 0 then i else start
      if run + 1 = pages then some start
      else allocScan b pages n (i + 1) (run + 1) start
    else allocScan b pages n (i + 1) 0 start

/-- `pmm_alloc_pages`: the address of the run, or 0. -/
def pmmAllocPages (p : Pmm) (pages : ℕ) : ℕ × Pmm :=
  if pages = 0 then (0, p)
  else if pages > p.freePagesCnt then (0, p)
  else
    match allocScan p.bitmap pages p.totalPagesCnt 0 0 0 with
    | some start =>
      (start * pageSize,
        { p with
          bitmap := setRun p.bitmap start pages
          freePagesCnt := p.freePagesCnt - pages })
    | none => (0, p)

/-- The body of the loop of `pmm_free_pages`: a used page becomes free and is counted. -/
def freePage (p : Pmm) (idx : ℕ) : Pmm :=
  if bitTest p idx then
    let p := bitClear p idx
    { p with freePagesCnt := p.freePagesCnt + 1 }
  else p

/-- The loop of `pmm_free_pages`, with `n` pages left from page `idx` on. -/
def freeLoop : (n : ℕ) → Pmm → (idx : ℕ) → Pmm
  | 0, p, _ => p
  | n + 1, p, idx =>
    if idx ≥ p.totalPagesCnt then p
    else freeLoop n (freePage p idx) (idx + 1)

def pmmFreePages (p : Pmm) (addr pages : ℕ) : Pmm :=
  if pages = 0 then p
  else if addr = 0 then p
  else freeLoop pages p (addr / pageSize)

/-! ## Single bits -/

@[simp] lemma bitTest_bitSet (p : Pmm) (i j : ℕ) :
    bitTest (bitSet p i) j = (decide (i = j) || bitTest p j) := getBit_setBit _ _ _

lemma used_ne_clear {p : Pmm} {i j : ℕ} (hi : bitTest p i = true) (hj : bitTest p j = false) : i ≠ j := by
  rintro rfl
  rw [hi] at hj
  exact Bool.noConfusion hj

@[simp] lemma bitTest_bitClear (p : Pmm) (i j : ℕ) :
    bitTest (bitClear p i) j = (!decide (i = j) && bitTest p j) := getBit_clearBit _ _ _

/-! ## The search finds clear runs, and the first one -/

/-- What the search returns is a run of clear pages inside the part it looked at.  The invariant
is that the `run` pages before `i` are clear and begin at `start`. -/
lemma allocScan_sound {b : Bitmap} {pages : ℕ} :
    ∀ {n i run start s : ℕ}, run < pages → (run ≠ 0 → start + run = i) →
      (∀ j, j < run → getBit b (start + j) = false) →
      allocScan b pages n i run start = some s →
      s + pages ≤ i + n ∧ ∀ j, j < pages → getBit b (s + j) = false
  | 0, _, _, _, _, _, _, _, h => by simp [allocScan] at h
  | n + 1, i, run, start, s, hrun, hend, hclear, h => by
      rw [allocScan] at h
      by_cases hbit : getBit b i = true
      · simp only [hbit, Bool.not_true, Bool.false_eq_true, if_false] at h
        have := allocScan_sound (n := n) (by omega) (by omega) (by omega) h
        exact ⟨by omega, this.2⟩
      · simp only [hbit, Bool.not_false, if_true] at h
        -- the run now ends at `i`, wherever it began
        set start' := if run = 0 then i else start with hstart'
        have hend' : start' + run = i := by
          rw [hstart']
          split_ifs with h0
          · omega
          · exact hend h0
        have hclear' : ∀ j, j < run + 1 → getBit b (start' + j) = false := by
          intro j hj
          by_cases hjr : j = run
          · rw [hjr, hend']
            simpa using hbit
          · have h0 : run ≠ 0 := by omega
            rw [hstart', if_neg h0]
            exact hclear j (by omega)
        split_ifs at h with hfull
        · rw [Option.some.injEq] at h
          subst h
          exact ⟨by omega, fun j hj => hclear' j (by omega)⟩
        · have := allocScan_sound (n := n) (by omega) (by omega) hclear' h
          exact ⟨by omega, this.2⟩

/-- **What an allocation does.**  Either it fails and changes nothing, or it returns the address
of a run of clear pages, sets exactly these bits and lowers the count. -/
theorem pmmAllocPages_cases (p : Pmm) (pages : ℕ) :
    pmmAllocPages p pages = (0, p) ∨
      ∃ s, 0 < pages ∧ pages ≤ p.freePagesCnt ∧ s + pages ≤ p.totalPagesCnt ∧
        (∀ j, j < pages → bitTest p (s + j) = false) ∧
        pmmAllocPages p pages = (s * 4096,
          { p with
            bitmap := setRun p.bitmap s pages
            freePagesCnt := p.freePagesCnt - pages }) := by
  rw [pmmAllocPages]
  by_cases h0 : pages = 0
  · exact Or.inl (by rw [if_pos h0])
  by_cases hcnt : pages > p.freePagesCnt
  · exact Or.inl (by rw [if_neg h0, if_pos hcnt])
  rw [if_neg h0, if_neg hcnt]
  cases hscan : allocScan p.bitmap pages p.totalPagesCnt 0 0 0 with
  | none => exact Or.inl rfl
  | some s =>
    have hs := allocScan_sound (by omega) (by omega) (by omega) hscan
    exact Or.inr ⟨s, by omega, by omega, by omega, hs.2, rfl⟩

/-! ## What freeing does to the bits -/

lemma bitTest_freePage (p : Pmm) (idx i : ℕ) :
    bitTest (freePage p idx) i = (bitTest p i && !decide (idx = i)) := by
  rw [freePage]
  split_ifs with hset
  · show bitTest (bitClear p idx) i = _
    rw [bitTest_bitClear, Bool.and_comm]
  · by_cases hi : idx = i
    · subst hi; simp [hset]
    · simp [hi]

@[simp] lemma freePage_totalPagesCnt (p : Pmm) (idx : ℕ) :
    (freePage p idx).totalPagesCnt = p.totalPagesCnt := by
  rw [freePage]; split_ifs <;> rfl

@[simp] lemma freeLoop_totalPagesCnt :
    ∀ (n : ℕ) (p : Pmm) (idx : ℕ), (freeLoop n p idx).totalPagesCnt = p.totalPagesCnt
  | 0, _, _ => rfl
  | n + 1, p, idx => by
      rw [freeLoop]
      split_ifs
      · rfl
      · rw [freeLoop_totalPagesCnt n, freePage_totalPagesCnt]

lemma bitTest_freeLoop :
    ∀ (n : ℕ) (p : Pmm) (idx i : ℕ), bitTest (freeLoop n p idx) i
        = (bitTest p i && !decide (idx ≤ i ∧ i < idx + n ∧ i < p.totalPagesCnt))
  | 0, p, idx, i => by
      have : ¬ (idx ≤ i ∧ i < idx + 0 ∧ i < p.totalPagesCnt) := by omega
      simp only [freeLoop, this, decide_false, Bool.not_false, Bool.and_true]
  | n + 1, p, idx, i => by
      rw [freeLoop]
      split_ifs with hend
      · have : ¬ (idx ≤ i ∧ i < idx + (n + 1) ∧ i < p.totalPagesCnt) := by omega
        simp only [this, decide_false, Bool.not_false, Bool.and_true]
      · rw [bitTest_freeLoop n, bitTest_freePage, freePage_totalPagesCnt, Bool.and_assoc]
        have hiff : (idx ≤ i ∧ i < idx + (n + 1) ∧ i < p.totalPagesCnt)
            ↔ (idx = i ∨ (idx + 1 ≤ i ∧ i < idx + 1 + n ∧ i < p.totalPagesCnt)) := by omega
        rw [decide_eq_decide.mpr hiff, Bool.decide_or, Bool.not_or]

/-- **What a free does to the bits**: it clears the pages of its range that are tracked. -/
theorem bitTest_pmmFreePages (p : Pmm) (addr pages i : ℕ) :
    bitTest (pmmFreePages p addr pages) i
      = (bitTest p i && !decide (addr ≠ 0 ∧ addr / 4096 ≤ i ∧ i < addr / 4096 + pages ∧
          i < p.totalPagesCnt)) := by
  rw [pmmFreePages]
  split_ifs with hpages haddr
  · have : ¬ (addr ≠ 0 ∧ addr / 4096 ≤ i ∧ i < addr / 4096 + pages ∧ i < p.totalPagesCnt) := by
      omega
    simp only [this, decide_false, Bool.not_false, Bool.and_true]
  · simp [haddr]
  · rw [bitTest_freeLoop, pageSize]
    simp only [ne_eq, haddr, not_false_eq_true, true_and]

@[simp] lemma pmmFreePages_null (p : Pmm) (pages : ℕ) : pmmFreePages p 0 pages = p := by
  simp [pmmFreePages]

@[simp] lemma pmmFreePages_totalPagesCnt (p : Pmm) (addr pages : ℕ) :
    (pmmFreePages p addr pages).totalPagesCnt = p.totalPagesCnt := by
  rw [pmmFreePages]
  split_ifs
  · rfl
  · rfl
  · exact freeLoop_totalPagesCnt _ _ _

/-! ## The count -/

/-- The cached count is the number of clear bits among the tracked ones. -/
def CountExact (p : Pmm) : Prop :=
  p.freePagesCnt = clearCount p.bitmap p.totalPagesCnt

lemma countExact_recount (p : Pmm) : CountExact (pmmRecountFree p) := rfl

lemma freePage_countExact {p : Pmm} {idx : ℕ} (hidx : idx < p.totalPagesCnt)
    (h : CountExact p) : CountExact (freePage p idx) := by
  rw [freePage]
  split_ifs with hset
  · have := clearCount_clearBit (b := p.bitmap) hidx hset
    show p.freePagesCnt + 1 = clearCount (clearBit p.bitmap idx) p.totalPagesCnt
    rw [this, h]
  · exact h

lemma freeLoop_countExact :
    ∀ (n : ℕ) (p : Pmm) (idx : ℕ), CountExact p → CountExact (freeLoop n p idx)
  | 0, _, _, h => h
  | n + 1, p, idx, h => by
      rw [freeLoop]
      split_ifs with hend
      · exact h
      · exact freeLoop_countExact n _ _ (freePage_countExact (by omega) h)

theorem pmmFreePages_countExact {p : Pmm} (h : CountExact p) (addr pages : ℕ) :
    CountExact (pmmFreePages p addr pages) := by
  rw [pmmFreePages]
  split_ifs
  · exact h
  · exact h
  · exact freeLoop_countExact _ _ _ h

theorem pmmAllocPages_countExact {p : Pmm} (h : CountExact p) (pages : ℕ) :
    CountExact (pmmAllocPages p pages).2 := by
  rcases pmmAllocPages_cases p pages with heq | ⟨s, _, _, hle, hclear, heq⟩
  · rw [heq]; exact h
  · have := clearCount_setRun (b := p.bitmap) hle hclear
    rw [heq]
    show p.freePagesCnt - pages = clearCount (setRun p.bitmap s pages) p.totalPagesCnt
    rw [CountExact] at h
    omega

end MyOs
