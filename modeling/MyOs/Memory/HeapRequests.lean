import MyOs.Memory.PmmCalls
import MyOs.User.Malloc

/-!
# Requests near the top of the word

Both heaps round a request up to 16 bytes, add a header of 24, and round again: the kernel to whole
pages, a user program to 16.  Each of these steps is taken modulo `2 ^ 64` and none is checked.

`RequestKept` says what a caller relies on: a block behind a result has the bytes asked for, and what
cannot be rounded is refused.  The heaps keep it for every request that fits in a word after rounding.
Beyond that a request is mostly granted, with a small block (`large_requests_kept_iff`); it is refused
only when no memory is left to grant it with.
-/

namespace MyOs

open Lib

/-! ## What is asked for -/

/-- Rounding up to a multiple of `k`, without a bound. -/
def roundUp (x k : ℕ) : ℕ := (x + (k - 1)) / k * k

/-- The memory that a request of `n` bytes needs, in units of `unit` bytes. -/
def bytesNeeded (unit n : ℕ) : ℕ := roundUp (kmHeaderSize + roundUp n 16) unit

/-- What a request of `n` bytes does to the list of blocks, with `ptr` its result. -/
structure RequestKept (unit n : ℕ) (before after : List KmBlock) (ptr : ℕ) : Prop where
  enough : ptr ≠ 0 → ∃ b ∈ after, b.addr + kmHeaderSize = ptr ∧ n ≤ b.size
  refused : 2 ^ 64 ≤ bytesNeeded unit n → ptr = 0 ∧ after = before

/-- No free block is as large as what is left of the request after rounding it in a word. -/
def NoneFits (heap : List KmBlock) (n : ℕ) : Prop :=
  ∀ b ∈ heap, b.free = true → b.size < (n + 15) % 2 ^ 64 / 16 * 16

variable {n : ℕ} {heap : List KmBlock}

lemma bytesNeeded_page : bytesNeeded 4096 n = (24 + (n + 15) / 16 * 16 + 4095) / 4096 * 4096 := rfl

lemma bytesNeeded_sixteen : bytesNeeded 16 n = (24 + (n + 15) / 16 * 16 + 15) / 16 * 16 := rfl

lemma findBlock_eq_none : findBlock heap (alignUpU64 n 16) = none ↔ NoneFits heap n := by
  simp only [findBlock, List.find?_eq_none, NoneFits, alignUpU64_sixteen, Bool.and_eq_true,
    decide_eq_true_eq, not_and, ge_iff_le, not_le]

/-- A block that is found is free and large enough, when rounding does not wrap. -/
lemma findBlock_enough {b : KmBlock} (h : findBlock heap (alignUpU64 n 16) = some b)
    (hn : n + 15 < 2 ^ 64) : b ∈ heap ∧ n ≤ b.size := by
  have htest := List.find?_some h
  simp only [Bool.and_eq_true, decide_eq_true_eq, alignUpU64_sixteen, Nat.mod_eq_of_lt hn] at htest
  exact ⟨List.mem_of_find?_eq_some h, by omega⟩

/-- What both heaps do with a request of `n` bytes: a free block is used again, or memory is asked for,
which is refused or gives a block of `size` bytes at the end of the list. -/
inductive Serves (n size : ℕ) (refused : Prop) (before : List KmBlock) : List KmBlock → ℕ → Prop
  | nothing (hn : n = 0) : Serves n size refused before before 0
  | reuse (hn : n ≠ 0) {b : KmBlock} (hfind : findBlock before (alignUpU64 n 16) = some b) :
    Serves n size refused before (setFree before b.addr false) (b.addr + kmHeaderSize)
  | refuse (hn : n ≠ 0) (hfind : findBlock before (alignUpU64 n 16) = none) (hr : refused) :
    Serves n size refused before before 0
  | extend (hn : n ≠ 0) (hfind : findBlock before (alignUpU64 n 16) = none) (hr : ¬ refused)
      (b : KmBlock) (hsize : b.size = size) :
    Serves n size refused before (before ++ [b]) (b.addr + kmHeaderSize)

section Serves

variable {unit size ptr : ℕ} {refused : Prop} {before after : List KmBlock}
  (h : Serves n size refused before after ptr)
include h

lemma Serves.kept (hfits : bytesNeeded unit n < 2 ^ 64) (hn : n + 15 < 2 ^ 64) (hsize : n ≤ size) :
    RequestKept unit n before after ptr := by
  refine ⟨fun hptr => ?_, fun hlarge => absurd hfits (by omega)⟩
  cases h with
  | nothing => exact absurd rfl hptr
  | reuse _ hfind =>
    obtain ⟨hb, hle⟩ := findBlock_enough hfind hn
    exact ⟨_, mem_setFree_self hb, rfl, hle⟩
  | refuse => exact absurd rfl hptr
  | extend _ _ _ b hb => exact ⟨b, by simp, rfl, hb ▸ hsize⟩

lemma Serves.kept_iff (hlarge : 2 ^ 64 ≤ bytesNeeded unit n) (hn : n ≠ 0) :
    RequestKept unit n before after ptr ↔ NoneFits before n ∧ refused := by
  have hserved : ∀ (b : KmBlock) after, ¬ RequestKept unit n before after (b.addr + kmHeaderSize) :=
    fun _ _ hkept => absurd (hkept.refused hlarge).1 (by simp [kmHeaderSize])
  rw [← findBlock_eq_none]
  cases h with
  | nothing hzero => exact absurd hzero hn
  | reuse _ hfind =>
    refine iff_of_false (hserved _ _) fun hcond => ?_
    rw [hcond.1] at hfind
    cases hfind
  | refuse _ hfind hr => exact iff_of_true ⟨fun h => absurd rfl h, fun _ => ⟨rfl, rfl⟩⟩ ⟨hfind, hr⟩
  | extend _ _ hr b => exact iff_of_false (hserved b _) fun hcond => hr hcond.2

end Serves

/-! ## The kernel heap -/

variable {s : KmState}

lemma requestPages_eq (size : ℕ) :
    requestPages size = ((24 + size) % 2 ^ 64 + 4095) % 2 ^ 64 / 4096 := by
  rw [requestPages, kmHeaderSize, pageSize, Nat.add_sub_assoc (by decide)]

lemma requestSpace_pages (s : KmState) (size : ℕ) :
    ((pmmAllocPages s.pmm (requestPages size)).1 = 0 ∧
      ∃ s', requestSpace s size = (none, s') ∧ s'.heap = s.heap) ∨
    ((pmmAllocPages s.pmm (requestPages size)).1 ≠ 0 ∧
      ∃ b s', requestSpace s size = (some b, s') ∧ s'.heap = s.heap ++ [b] ∧
        b.size = (requestPages size * 4096 - 24) % 2 ^ 64) := by
  rw [requestSpace, requestPages]
  by_cases hnull : (pmmAllocPages s.pmm
      (((kmHeaderSize + size) % 2 ^ 64 + pageSize - 1) % 2 ^ 64 / pageSize)).1 = 0
  · exact Or.inl ⟨hnull, _, if_pos hnull, rfl⟩
  · exact Or.inr ⟨hnull, _, _, if_neg hnull, rfl, rfl⟩

lemma kmalloc_serves (s : KmState) (n : ℕ) :
    Serves n ((requestPages (alignUpU64 n 16) * 4096 - 24) % 2 ^ 64)
      ((pmmAllocPages s.pmm (requestPages (alignUpU64 n 16))).1 = 0) s.heap
      (kmalloc s n).2.heap (kmalloc s n).1 := by
  rw [kmalloc]
  by_cases hn : n = 0
  · rw [if_pos hn]
    exact .nothing hn
  rw [if_neg hn]
  cases hfind : findBlock s.heap (alignUpU64 n 16) with
  | some b =>
    simp only [hfind]
    exact .reuse hn hfind
  | none =>
    simp only [hfind]
    rcases requestSpace_pages s (alignUpU64 n 16) with
      ⟨hnull, s', heq, hheap⟩ | ⟨hsome, b, s', heq, hheap, hsize⟩
    · rw [heq]
      exact hheap.symm ▸ .refuse hn hfind hnull
    · rw [heq]
      exact hheap.symm ▸ .extend hn hfind hsome b hsize

lemma kmalloc_enough (hfits : bytesNeeded 4096 n < 2 ^ 64) :
    RequestKept 4096 n s.heap (kmalloc s n).2.heap (kmalloc s n).1 := by
  have hneeded := hfits
  rw [bytesNeeded_page] at hneeded
  refine (kmalloc_serves s n).kept hfits (by omega) ?_
  rw [requestPages_eq, alignUpU64_sixteen]
  omega

lemma requestPages_wrapped (hn : n < 2 ^ 64) (hlarge : 2 ^ 64 ≤ bytesNeeded 4096 n) :
    requestPages (alignUpU64 n 16) = if n + 32 ≤ 2 ^ 64 then 0 else 1 := by
  rw [bytesNeeded_page] at hlarge
  rw [requestPages_eq, alignUpU64_sixteen]
  split_ifs <;> omega

/-- The kernel heap refuses a request that does not fit just when it cannot serve what is left of it. -/
lemma kmalloc_refuses_iff (hzero : bitTest s.pmm 0 = true) (hcount : CountExact s.pmm)
    (hn : n < 2 ^ 64) (hlarge : 2 ^ 64 ≤ bytesNeeded 4096 n) :
    RequestKept 4096 n s.heap (kmalloc s n).2.heap (kmalloc s n).1 ↔
      NoneFits s.heap n ∧ (n + 32 ≤ 2 ^ 64 ∨ s.pmm.freePagesCnt = 0) := by
  have hpos : n ≠ 0 := by
    rintro rfl
    exact absurd hlarge (by decide)
  have hnone : (pmmAllocPages s.pmm (requestPages (alignUpU64 n 16))).1 = 0 ↔
      n + 32 ≤ 2 ^ 64 ∨ s.pmm.freePagesCnt = 0 := by
    rw [requestPages_wrapped hn hlarge]
    split_ifs with hsmall
    · exact iff_of_true (by rw [pmmAllocPages, if_pos rfl]) (Or.inl hsmall)
    · rw [pmmAllocPages_one_eq_zero hzero hcount, or_iff_right hsmall]
  rw [(kmalloc_serves s n).kept_iff hlarge hpos, hnone]

/-! ## The heap of a user program -/

namespace User

variable {last : ℕ} {granted : Bool} {h : UHeap}

lemma sbrk_eq (last : ℕ) (granted : Bool) (h : UHeap) (inc : ℕ) :
    sbrk last granted h inc =
      if sysBrk granted ((h.fin last + inc) % 2 ^ 64) = 2 ^ 64 - 1 then
        (2 ^ 64 - 1, { h with programBreak := h.fin last })
      else (h.fin last, { h with programBreak := (h.fin last + inc) % 2 ^ 64 }) := by
  have hstart : (if h.programBreak = 0 then { h with programBreak := last } else h) =
      { h with programBreak := h.fin last } := by
    rw [UHeap.fin]
    split_ifs <;> rfl
  simp only [sbrk, hstart]

lemma requestSpace_sbrk (last : ℕ) (granted : Bool) (h : UHeap) (size : ℕ) :
    ((sbrk last granted h (totalSize size)).1 = 2 ^ 64 - 1 ∧
      ∃ h', requestSpace last granted h size = (none, h') ∧ h'.head = h.head) ∨
    ((sbrk last granted h (totalSize size)).1 ≠ 2 ^ 64 - 1 ∧
      ∃ b h', requestSpace last granted h size = (some b, h') ∧ h'.head = h.head ++ [b] ∧
        b.size = (totalSize size + 2 ^ 64 - 24) % 2 ^ 64) := by
  have hhead : (sbrk last granted h (totalSize size)).2.head = h.head := by
    rw [sbrk_eq]
    by_cases hfail : sysBrk granted ((h.fin last + totalSize size) % 2 ^ 64) = 2 ^ 64 - 1
    · rw [if_pos hfail]
    · rw [if_neg hfail]
  simp only [requestSpace]
  generalize sbrk last granted h (totalSize size) = r at hhead ⊢
  by_cases hnull : r.1 = 2 ^ 64 - 1
  · exact Or.inl ⟨hnull, _, if_pos hnull, hhead⟩
  · exact Or.inr ⟨hnull, _, _, if_neg hnull, congrArg (· ++ _) hhead, rfl⟩

lemma malloc_serves (last : ℕ) (granted : Bool) (h : UHeap) (n : ℕ) :
    Serves n ((totalSize (alignUpU64 n 16) + 2 ^ 64 - 24) % 2 ^ 64)
      ((sbrk last granted h (totalSize (alignUpU64 n 16))).1 = 2 ^ 64 - 1) h.head
      (malloc last granted h n).2.head (malloc last granted h n).1 := by
  rw [malloc]
  by_cases hn : n = 0
  · rw [if_pos hn]
    exact .nothing hn
  rw [if_neg hn]
  cases hfind : findBlock h.head (alignUpU64 n 16) with
  | some b =>
    simp only [hfind]
    exact .reuse hn hfind
  | none =>
    simp only [hfind]
    rcases requestSpace_sbrk last granted h (alignUpU64 n 16) with
      ⟨hnull, h', heq, hhead⟩ | ⟨hsome, b, h', heq, hhead, hsize⟩
    · rw [heq]
      exact hhead.symm ▸ .refuse hn hfind hnull
    · rw [heq]
      exact hhead.symm ▸ .extend hn hfind hsome b hsize

lemma malloc_enough (hfits : bytesNeeded 16 n < 2 ^ 64) :
    RequestKept 16 n h.head (malloc last granted h n).2.head (malloc last granted h n).1 := by
  have hneeded := hfits
  rw [bytesNeeded_sixteen] at hneeded
  refine (malloc_serves last granted h n).kept hfits (by omega) ?_
  rw [totalSize, alignUpU64_sixteen, alignUpU64_sixteen, kmHeaderSize]
  omega

/-- What is left of a request that does not fit. -/
def wrappedRequest (n : ℕ) : ℕ :=
  if n + 32 ≤ 2 ^ 64 then 0 else if n + 16 ≤ 2 ^ 64 then 16 else 32

lemma totalSize_wrapped (hn : n < 2 ^ 64) (hlarge : 2 ^ 64 ≤ bytesNeeded 16 n) :
    totalSize (alignUpU64 n 16) = wrappedRequest n := by
  rw [bytesNeeded_sixteen] at hlarge
  rw [totalSize, alignUpU64_sixteen, alignUpU64_sixteen, kmHeaderSize, wrappedRequest]
  split_ifs <;> omega

/-- The kernel does not move the break by `inc`, or the break cannot be told from the error value -1. -/
def BreakRefused (last : ℕ) (granted : Bool) (h : UHeap) (inc : ℕ) : Prop :=
  granted = false ∨ h.fin last = 2 ^ 64 - 1 ∨ (h.fin last + inc) % 2 ^ 64 = 2 ^ 64 - 1

lemma sbrk_refused_iff (last : ℕ) (granted : Bool) (h : UHeap) (inc : ℕ) :
    (sbrk last granted h inc).1 = 2 ^ 64 - 1 ↔ BreakRefused last granted h inc := by
  rw [sbrk_eq, BreakRefused]
  cases granted with
  | false => simp [sysBrk]
  | true =>
    simp only [sysBrk, if_true, Bool.true_eq_false, false_or]
    by_cases hnew : (h.fin last + inc) % 2 ^ 64 = 2 ^ 64 - 1
    · rw [if_pos hnew]
      exact iff_of_true rfl (Or.inr hnew)
    · rw [if_neg hnew, or_iff_left hnew]

/-- The user heap refuses a request that does not fit just when it cannot serve what is left of it. -/
lemma malloc_refuses_iff (hn : n < 2 ^ 64) (hlarge : 2 ^ 64 ≤ bytesNeeded 16 n) :
    RequestKept 16 n h.head (malloc last granted h n).2.head (malloc last granted h n).1 ↔
      NoneFits h.head n ∧ BreakRefused last granted h (wrappedRequest n) := by
  have hpos : n ≠ 0 := by
    rintro rfl
    exact absurd hlarge (by decide)
  rw [(malloc_serves last granted h n).kept_iff hlarge hpos, sbrk_refused_iff,
    totalSize_wrapped hn hlarge]

end User

/-! ## Both heaps -/

/-- **When a request is honest.**  For every state of the kernel heap over a page allocator with an exact
count, every state of a user heap and every word `n`: the request is served in full or refused just when
it fits in a word after rounding, or nothing is left to serve the wrapped request with. -/
theorem large_requests_kept_iff (s : KmState) (h : User.UHeap) (last n : ℕ) (granted : Bool)
    (hzero : bitTest s.pmm 0 = true) (hcount : CountExact s.pmm) (hn : n < 2 ^ 64) :
    (RequestKept 4096 n s.heap (kmalloc s n).2.heap (kmalloc s n).1 ↔
      bytesNeeded 4096 n < 2 ^ 64 ∨
        NoneFits s.heap n ∧ (n + 32 ≤ 2 ^ 64 ∨ s.pmm.freePagesCnt = 0)) ∧
    (RequestKept 16 n h.head (User.malloc last granted h n).2.head (User.malloc last granted h n).1 ↔
      bytesNeeded 16 n < 2 ^ 64 ∨
        NoneFits h.head n ∧ User.BreakRefused last granted h (User.wrappedRequest n)) := by
  constructor
  · by_cases hfits : bytesNeeded 4096 n < 2 ^ 64
    · exact iff_of_true (kmalloc_enough hfits) (Or.inl hfits)
    · rw [or_iff_right hfits]
      exact kmalloc_refuses_iff hzero hcount hn (by omega)
  · by_cases hfits : bytesNeeded 16 n < 2 ^ 64
    · exact iff_of_true (User.malloc_enough hfits) (Or.inl hfits)
    · rw [or_iff_right hfits]
      exact User.malloc_refuses_iff hn (by omega)

/-- A hundred bytes from empty heaps. -/
theorem large_requests_kept_hundred :
    RequestKept 4096 100 [] (kmalloc ⟨smallPmm, [], []⟩ 100).2.heap
        (kmalloc ⟨smallPmm, [], []⟩ 100).1 ∧
      RequestKept 16 100 [] (User.malloc 0x8000400000 true ⟨[], 0⟩ 100).2.head
        (User.malloc 0x8000400000 true ⟨[], 0⟩ 100).1 := by
  have h := large_requests_kept_iff ⟨smallPmm, [], []⟩ ⟨[], 0⟩ 0x8000400000 100 true
    ((bitTest_smallPmm 0).mpr (by decide)) smallPmm_countExact (by decide)
  exact ⟨h.1.mpr (Or.inl (by decide)), h.2.mpr (Or.inl (by decide))⟩

/-- A request of `2 ^ 64 - 1` bytes is granted by both heaps, with 4072 and with 8 bytes. -/
theorem large_requests_granted :
    ((kmalloc ⟨smallPmm, [], []⟩ (2 ^ 64 - 1)).1 = 0x200018 ∧
      (kmalloc ⟨smallPmm, [], []⟩ (2 ^ 64 - 1)).2.heap = [⟨0x200000, 4072, false⟩]) ∧
    ((User.malloc 0x8000400000 true ⟨[], 0⟩ (2 ^ 64 - 1)).1 = 0x8000400018 ∧
      (User.malloc 0x8000400000 true ⟨[], 0⟩ (2 ^ 64 - 1)).2.head = [⟨0x8000400000, 8, false⟩]) := by
  decide +kernel

end MyOs
