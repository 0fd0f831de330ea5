import MyOs.Lib.Tiling
import MyOs.Memory.Kmalloc

/-!
# The heap of a user program

`user/malloc.c` is the kernel's heap with another source of memory.  `ublock_t` has the fields of
`km_block_t`, and the loops `find_block` and `merge` are those of `src/kmalloc.c`.  What differs is
`request_space`: it extends the program break with `sbrk`, and so a new block lies where the last one
ends.

That is why joining list neighbours is sound here while it is not in the kernel: the blocks of the list
tile the memory from `_end` to the program break (`user_heap_tiles`).

What `sys_brk` answers is part of the call: `granted` says whether the kernel gives the break it is asked
for.  Nobody else in the process moves it.
-/

namespace MyOs.User

open Lib List

/-- `g_head`, as the list of its blocks, and `g_program_break`. -/
structure UHeap where
  head : List KmBlock
  programBreak : ℕ

/-- `sys_brk`: the new break, or -1. -/
def sysBrk (granted : Bool) (fin : ℕ) : ℕ := if granted then fin else 2 ^ 64 - 1

/-- `sbrk`, for a program that ends at `last` (the symbol `_end`). -/
def sbrk (last : ℕ) (granted : Bool) (h : UHeap) (inc : ℕ) : ℕ × UHeap :=
  let h := if h.programBreak = 0 then { h with programBreak := last } else h
  let old := h.programBreak
  let newBrk := (h.programBreak + inc) % 2 ^ 64
  if sysBrk granted newBrk = 2 ^ 64 - 1 then (2 ^ 64 - 1, h)
  else (old, { h with programBreak := newBrk })

/-- What `request_space` asks `sbrk` for. -/
def totalSize (size : ℕ) : ℕ := alignUpU64 ((kmHeaderSize + size) % 2 ^ 64) 16

/-- `request_space`: a block at the end of the list, or none. -/
def requestSpace (last : ℕ) (granted : Bool) (h : UHeap) (size : ℕ) : Option KmBlock × UHeap :=
  let total := totalSize size
  let r := sbrk last granted h total
  if r.1 = 2 ^ 64 - 1 then (none, r.2)
  else
    let block : KmBlock :=
      { addr := r.1, size := (total + 2 ^ 64 - kmHeaderSize) % 2 ^ 64, free := false }
    (some block, { r.2 with head := r.2.head ++ [block] })

/-- `malloc`: the address of the data, or 0. -/
def malloc (last : ℕ) (granted : Bool) (h : UHeap) (size : ℕ) : ℕ × UHeap :=
  if size = 0 then (0, h)
  else
    let size := alignUpU64 size 16
    match findBlock h.head size with
    | some block =>
      (block.addr + kmHeaderSize, { h with head := setFree h.head block.addr false })
    | none =>
      match requestSpace last granted h size with
      | (some block, h) => (block.addr + kmHeaderSize, h)
      | (none, h) => (0, h)

def merge : List KmBlock → List KmBlock := mergeFreeBlocks

def free (h : UHeap) (ptr : ℕ) : UHeap :=
  if ptr = 0 then h
  else { h with head := merge (setFree h.head (ptr - kmHeaderSize) true) }

/-! ## Runs -/

/-- The heap, and as a history variable the live results with the sizes that were asked for. -/
structure UHeapSys where
  heap : UHeap
  live : List (ℕ × ℕ)

/-- A call of the program. -/
inductive UHeapOp
  | malloc (n : ℕ) (granted : Bool)
  | free (ptr : ℕ)

/-- The heap before the first call. -/
def UHeapSys.init : UHeapSys := ⟨⟨[], 0⟩, []⟩

/-- One call. -/
def UHeapSys.step (last : ℕ) (s : UHeapSys) : UHeapOp → UHeapSys
  | .malloc n granted =>
    let r := User.malloc last granted s.heap n
    { heap := r.2, live := if r.1 = 0 then s.live else (r.1, n) :: s.live }
  | .free ptr => { heap := User.free s.heap ptr, live := s.live.filter (·.1 ≠ ptr) }

/-- The end of the heap: before the first call the program break is not known, and the heap is empty. -/
def UHeap.fin (last : ℕ) (h : UHeap) : ℕ := if h.programBreak = 0 then last else h.programBreak

/-- What callers respect: sizes for which neither `n + 63` nor a new break wraps, and only live results
are freed. -/
def UHeapSys.Ok (last : ℕ) (s : UHeapSys) : UHeapOp → Prop
  | .malloc n _ => n + 63 < 2 ^ 64 ∧
      (findBlock s.heap.head (alignUpU64 n 16) = none →
        s.heap.fin last + totalSize (alignUpU64 n 16) < 2 ^ 64)
  | .free ptr => ptr ∈ s.live.map Prod.fst

/-- The bytes of a block, with its header. -/
def blockLen (b : KmBlock) : ℕ := kmHeaderSize + b.size

lemma blockLen_eq (b : KmBlock) : blockLen b = 24 + b.size := rfl

/-- Each block starts where the one before it ends. -/
def UHeap.Tiled (last : ℕ) (h : UHeap) : Prop :=
  Tiles KmBlock.addr blockLen last h.head (h.fin last)

/-- The invariant. -/
structure UHeapSys.Inv (last : ℕ) (s : UHeapSys) : Prop where
  tiled : s.heap.Tiled last
  fin_lt : s.heap.fin last < 2 ^ 64
  nodup : (s.live.map Prod.fst).Nodup
  block : ∀ r ∈ s.live, ∃ b ∈ s.heap.head, b.addr + kmHeaderSize = r.1 ∧ r.2 ≤ b.size ∧ b.free = false

variable {last : ℕ} {s : UHeapSys} {h h' : UHeap} {n : ℕ}
variable {b : KmBlock} {hi lo : ℕ} {head : List KmBlock}

/-! ## Sizes -/

lemma alignUp_sixteen (hn : n + 15 < 2 ^ 64) : alignUpU64 n 16 = (n + 15) / 16 * 16 := by
  rw [alignUpU64_sixteen, Nat.mod_eq_of_lt hn]

lemma totalSize_eq (hn : n + 63 < 2 ^ 64) :
    totalSize (alignUpU64 n 16) = (24 + (n + 15) / 16 * 16 + 15) / 16 * 16 := by
  rw [alignUp_sixteen (by omega), totalSize, kmHeaderSize, Nat.mod_eq_of_lt (by omega),
    alignUp_sixteen (by omega)]

/-! ## Blocks -/

lemma UHeap.Tiled.unique (ht : h.Tiled last) {c : KmBlock} (hb : b ∈ h.head) (hc : c ∈ h.head)
    (haddr : b.addr = c.addr) : b = c := by
  by_contra hne
  have hpair := ht.pairwise.imp (S := fun b c => b.addr ≠ c.addr) fun {b c} hbc heq => by
    rw [blockLen_eq] at hbc
    omega
  have : Std.Symm fun b c : KmBlock => b.addr ≠ c.addr := ⟨fun _ _ h => Ne.symm h⟩
  exact hpair.forall hb hc hne haddr

lemma tiles_setFree (a : ℕ) (v : Bool) (ht : Tiles KmBlock.addr blockLen lo head hi) :
    Tiles KmBlock.addr blockLen lo (setFree head a v) hi := by
  refine ht.map (fun b => ?_) fun b => ?_
  · split_ifs <;> rfl
  · split_ifs <;> rfl

lemma tiles_mergeFrom {rest : List KmBlock} {cur : KmBlock} (hhi : hi < 2 ^ 64)
    (ht : Tiles KmBlock.addr blockLen lo (cur :: rest) hi) :
    Tiles KmBlock.addr blockLen lo (mergeFrom cur rest) hi := by
  induction rest generalizing lo cur with
  | nil => exact ht
  | cons next rest ih =>
    rw [mergeFrom]
    split_ifs
    · refine ih ?_
      obtain ⟨hcur, hnext, hrest⟩ := ht
      have hle := hrest.le
      have hlen : blockLen (cur.join next) = blockLen cur + blockLen next := by
        have hmod : (cur.size + (24 + next.size)) % 2 ^ 64 = cur.size + (24 + next.size) := by
          refine Nat.mod_eq_of_lt ?_
          simp only [blockLen_eq] at hle
          omega
        change 24 + (cur.size + (24 + next.size)) % 2 ^ 64 = 24 + cur.size + (24 + next.size)
        rw [hmod]
        omega
      refine ⟨hcur, ?_⟩
      rwa [hlen, ← Nat.add_assoc]
    · exact ⟨ht.1, ih ht.2⟩

/-- Not both blocks are free. -/
def NotBothFree (b c : KmBlock) : Prop := ¬ (b.free = true ∧ c.free = true)

/-- After merging no two neighbours are free, and the first block is as free as it was. -/
lemma isChain_mergeFrom (rest : List KmBlock) (cur : KmBlock) :
    (mergeFrom cur rest).IsChain NotBothFree ∧
      ∃ b bs, mergeFrom cur rest = b :: bs ∧ b.free = cur.free := by
  induction rest generalizing cur with
  | nil => exact ⟨isChain_singleton _, cur, [], rfl, rfl⟩
  | cons next rest ih =>
    rw [mergeFrom]
    split_ifs with hfree
    · exact ih (cur.join next)
    · obtain ⟨hchain, b, bs, heq, hb⟩ := ih next
      refine ⟨?_, cur, _, rfl, rfl⟩
      rw [heq] at hchain ⊢
      refine isChain_cons_cons.mpr ⟨fun hboth => hfree ?_, hchain⟩
      rw [← hb, hboth.1, hboth.2]
      rfl

lemma isChain_merge (head : List KmBlock) : (merge head).IsChain NotBothFree := by
  cases head with
  | nil => exact isChain_nil
  | cons cur rest => exact (isChain_mergeFrom rest cur).1

lemma tiles_merge (hhi : hi < 2 ^ 64) (ht : Tiles KmBlock.addr blockLen lo head hi) :
    Tiles KmBlock.addr blockLen lo (merge head) hi := by
  cases head with
  | nil => exact ht
  | cons cur rest => exact tiles_mergeFrom hhi ht

lemma mem_merge_of_used (hb : b ∈ head) (hused : b.free = false) : b ∈ merge head := by
  cases head with
  | nil => cases hb
  | cons cur rest => exact mem_mergeFrom_of_used hb hused

/-! ## Extending the heap -/

lemma sbrk_cases (last : ℕ) (granted : Bool) (h : UHeap) {inc : ℕ}
    (hinc : h.fin last + inc < 2 ^ 64) (hpos : 0 < inc) :
    ((sbrk last granted h inc).1 = 2 ^ 64 - 1 ∧ (sbrk last granted h inc).2.fin last = h.fin last ∨
      (sbrk last granted h inc).1 = h.fin last ∧
        (sbrk last granted h inc).2.fin last = h.fin last + inc) ∧
      (sbrk last granted h inc).2.head = h.head := by
  have hstart : (if h.programBreak = 0 then { h with programBreak := last } else h) =
      { h with programBreak := h.fin last } := by
    rw [UHeap.fin]
    split_ifs <;> rfl
  have hfin : ∀ {k : ℕ}, k ≠ 0 → UHeap.fin last { h with programBreak := k } = k :=
    fun hk => if_neg hk
  simp only [sbrk, hstart, Nat.mod_eq_of_lt hinc]
  split_ifs
  · refine ⟨Or.inl ⟨rfl, ?_⟩, rfl⟩
    by_cases hzero : h.fin last = 0
    · -- a program that ends at 0 has its break there
      rw [hzero]
      have : last = 0 := by
        rw [UHeap.fin] at hzero
        split_ifs at hzero with hb
        · exact hzero
        · exact absurd hzero hb
      exact (if_pos rfl).trans this
    · exact hfin hzero
  · exact ⟨Or.inr ⟨rfl, hfin (by omega)⟩, rfl⟩

lemma requestSpace_cases (last : ℕ) (granted : Bool) (h : UHeap) {size : ℕ}
    (hlt : h.fin last + totalSize size < 2 ^ 64) (hsize : 24 + size ≤ totalSize size) :
    (∃ h', requestSpace last granted h size = (none, h') ∧ h'.head = h.head ∧
      h'.fin last = h.fin last) ∨
    ∃ b h', requestSpace last granted h size = (some b, h') ∧ b.addr = h.fin last ∧
      b.free = false ∧ size ≤ b.size ∧ h'.head = h.head ++ [b] ∧
      h'.fin last = h.fin last + blockLen b ∧ blockLen b ≤ totalSize size := by
  obtain ⟨hmoves, hhead⟩ := sbrk_cases last granted h hlt (by omega)
  have hcut : (totalSize size + 2 ^ 64 - 24) % 2 ^ 64 = totalSize size - 24 := by omega
  simp only [requestSpace, kmHeaderSize, hcut]
  generalize sbrk last granted h (totalSize size) = r at hmoves hhead ⊢
  rcases hmoves with ⟨hfail, hfin⟩ | ⟨hold, hfin⟩
  · rw [if_pos hfail]
    exact Or.inl ⟨r.2, rfl, hhead, hfin⟩
  · -- the old break is not -1, since a block fits behind it
    rw [if_neg (by omega)]
    have hlen : blockLen ⟨r.1, totalSize size - 24, false⟩ = totalSize size := by
      rw [blockLen_eq]
      simp only
      omega
    refine Or.inr ⟨⟨r.1, totalSize size - 24, false⟩, _, rfl, hold, rfl, ?_, by rw [hhead], ?_, hlen.le⟩
    · simp only
      omega
    · rw [hlen]
      exact hfin

/-- **What an allocation does.**  It fails and changes no block, it takes a free block that is large
enough, or it appends a block of at least the size asked for. -/
lemma malloc_cases (hok : s.Ok last (.malloc n true)) (granted : Bool) :
    (∃ h, malloc last granted s.heap n = (0, h) ∧ h.head = s.heap.head ∧
      h.fin last = s.heap.fin last) ∨
    (∃ b ∈ s.heap.head, b.free = true ∧ n ≤ b.size ∧ malloc last granted s.heap n =
      (b.addr + kmHeaderSize, { s.heap with head := setFree s.heap.head b.addr false })) ∨
    (∃ b h, b.addr = s.heap.fin last ∧ b.free = false ∧ n ≤ b.size ∧
      malloc last granted s.heap n = (b.addr + kmHeaderSize, h) ∧ h.head = s.heap.head ++ [b] ∧
      h.fin last = s.heap.fin last + blockLen b ∧ h.fin last < 2 ^ 64) := by
  obtain ⟨hn, hbrk⟩ := hok
  have halign := alignUp_sixteen (n := n) (by omega)
  by_cases hzero : n = 0
  · exact Or.inl ⟨s.heap, by rw [malloc, if_pos hzero], rfl, rfl⟩
  cases hfind : findBlock s.heap.head (alignUpU64 n 16) with
  | some b =>
    have hb := mem_of_find?_eq_some hfind
    have htest := find?_some hfind
    simp only [Bool.and_eq_true, decide_eq_true_eq] at htest
    refine Or.inr (Or.inl ⟨b, hb, htest.1, by omega, ?_⟩)
    simp only [malloc, if_neg hzero, hfind]
  | none =>
    have htotal := totalSize_eq hn
    have hlt := hbrk hfind
    have hroom : 24 + alignUpU64 n 16 ≤ totalSize (alignUpU64 n 16) := by omega
    rcases requestSpace_cases last granted s.heap hlt hroom with
      ⟨h', heq, hhead, hfin⟩ | ⟨b, h', heq, haddr, hused, hsize, hhead, hfin, hle⟩
    · refine Or.inl ⟨h', ?_, hhead, hfin⟩
      simp only [malloc, if_neg hzero, hfind, heq]
    · refine Or.inr (Or.inr ⟨b, h', haddr, hused, by omega, ?_, hhead, hfin, by omega⟩)
      simp only [malloc, if_neg hzero, hfind, heq]

/-! ## One call keeps the invariant -/

lemma UHeapSys.Inv.ne_of_used (hs : s.Inv last) (hb : b ∈ s.heap.head) (hfree : b.free = true)
    {r : ℕ × ℕ} (hr : r ∈ s.live) : r.1 ≠ b.addr + kmHeaderSize := by
  intro heq
  obtain ⟨c, hc, haddr, _, hused⟩ := hs.block r hr
  have : c = b := hs.tiled.unique hc hb (by omega)
  rw [this, hfree] at hused
  cases hused

lemma UHeapSys.Inv.malloc (hs : s.Inv last) {granted : Bool} (hok : s.Ok last (.malloc n granted)) :
    (s.step last (.malloc n granted)).Inv last := by
  rcases malloc_cases hok granted with ⟨h, heq, hhead, hfin⟩ | ⟨b, hb, hfree, hsize, heq⟩ |
    ⟨b, h, hat, hused, hsize, heq, hhead, hfin, hlt⟩
  · simp only [step, heq, if_true]
    refine ⟨?_, ?_, hs.nodup, ?_⟩
    · rw [UHeap.Tiled, hhead, hfin]
      exact hs.tiled
    · rw [hfin]
      exact hs.fin_lt
    · rw [hhead]
      exact hs.block
  · have hne : b.addr + kmHeaderSize ≠ 0 := by simp only [kmHeaderSize]; omega
    simp only [step, heq, if_neg hne]
    refine ⟨tiles_setFree _ _ hs.tiled, hs.fin_lt, ?_, ?_⟩
    · refine nodup_cons.mpr ⟨fun hmem => ?_, hs.nodup⟩
      obtain ⟨r, hr, haddr⟩ := mem_map.mp hmem
      exact hs.ne_of_used hb hfree hr haddr
    · intro r hr
      rcases mem_cons.mp hr with rfl | hr
      · exact ⟨_, mem_setFree_self hb, rfl, hsize, rfl⟩
      · obtain ⟨c, hc, haddr, hle, hcused⟩ := hs.block r hr
        have hca : c.addr ≠ b.addr := fun h => hs.ne_of_used hb hfree hr (by omega)
        exact ⟨c, mem_setFree_of_ne hc hca, haddr, hle, hcused⟩
  · have hne : b.addr + kmHeaderSize ≠ 0 := by simp only [kmHeaderSize]; omega
    simp only [step, heq, if_neg hne]
    refine ⟨?_, hlt, ?_, ?_⟩
    · rw [UHeap.Tiled, hhead, hfin]
      exact hs.tiled.snoc hat
    · -- every older block ends before the new one
      refine nodup_cons.mpr ⟨fun hmem => ?_, hs.nodup⟩
      obtain ⟨r, hr, haddr⟩ := mem_map.mp hmem
      obtain ⟨c, hc, hcaddr, _⟩ := hs.block r hr
      have := hs.tiled.fin_le hc
      simp only [blockLen_eq, kmHeaderSize] at *
      omega
    · intro r hr
      rw [hhead]
      rcases mem_cons.mp hr with rfl | hr
      · exact ⟨b, mem_append_right _ mem_cons_self, rfl, hsize, hused⟩
      · obtain ⟨c, hc, hrest⟩ := hs.block r hr
        exact ⟨c, mem_append_left _ hc, hrest⟩

lemma UHeapSys.Inv.free (hs : s.Inv last) {ptr : ℕ} (hok : s.Ok last (.free ptr)) :
    (s.step last (.free ptr)).Inv last := by
  obtain ⟨freed, hfreed, hptr⟩ := mem_map.mp hok
  obtain ⟨c, -, hc, -⟩ := hs.block freed hfreed
  have hlive : ∀ r ∈ s.live.filter (·.1 ≠ ptr), r ∈ s.live ∧ r.1 ≠ ptr := by
    intro r hr
    simpa using hr
  have hnodup : ((s.live.filter (·.1 ≠ ptr)).map Prod.fst).Nodup :=
    hs.nodup.sublist (filter_sublist.map _)
  simp only [step, User.free]
  split_ifs
  · exact ⟨hs.tiled, hs.fin_lt, hnodup, fun r hr => hs.block r (hlive r hr).1⟩
  · refine ⟨tiles_merge hs.fin_lt (tiles_setFree _ _ hs.tiled), hs.fin_lt, hnodup, fun r hr => ?_⟩
    obtain ⟨hr, hne⟩ := hlive r hr
    obtain ⟨b, hb, haddr, hsize, hused⟩ := hs.block r hr
    have hba : b.addr ≠ ptr - kmHeaderSize := by
      simp only [kmHeaderSize] at *
      omega
    exact ⟨b, mem_merge_of_used (mem_setFree_of_ne hb hba) hused, haddr, hsize, hused⟩

lemma UHeapSys.Inv.step (hs : s.Inv last) {op : UHeapOp} (hok : s.Ok last op) :
    (s.step last op).Inv last := by
  cases op with
  | malloc n granted => exact hs.malloc hok
  | free ptr => exact hs.free hok

lemma UHeapSys.inv_init (hlast : last < 2 ^ 64) : UHeapSys.init.Inv last :=
  ⟨rfl, hlast, nodup_nil, by simp [UHeapSys.init]⟩

/-! ## The heap along a run -/

/-- Live results do not overlap: their blocks are different, and blocks tile the heap. -/
lemma UHeapSys.Inv.disjoint (hs : s.Inv last) :
    s.live.Pairwise fun p q => p.1 + p.2 ≤ q.1 ∨ q.1 + q.2 ≤ p.1 := by
  refine hs.nodup.of_map.pairwise_of_forall_ne fun p hp q hq hne => ?_
  obtain ⟨b, hb, hbaddr, hbsize, -⟩ := hs.block p hp
  obtain ⟨c, hc, hcaddr, hcsize, -⟩ := hs.block q hq
  have hbc : b ≠ c := by
    rintro rfl
    exact hne (inj_on_of_nodup_map hs.nodup hp hq (hbaddr.symm.trans hcaddr))
  have hapart : s.heap.head.Pairwise KmBlock.Apart := by
    refine hs.tiled.pairwise.imp fun {b c} hle => Or.inl ?_
    rwa [KmBlock.fin_eq, Nat.add_assoc]
  have := hapart.forall hb hc hbc
  simp only [KmBlock.Apart, KmBlock.fin_eq, kmHeaderSize] at *
  omega

/-- **The user heap is tiled.**  After any sequence of `malloc` and of `free` of live results, whatever
`sys_brk` answers, the blocks of the list fill the memory from `_end` to the program break in the order
of the list.  Hence live results do not overlap, each has the bytes that were asked for, and right after
a `free` no two neighbours are free. -/
theorem user_heap_tiles {last : ℕ} (hlast : last < 2 ^ 64) {ops : List UHeapOp}
    (hops : Admissible (UHeapSys.Ok last) (UHeapSys.step last) .init ops) :
    let s := run (UHeapSys.step last) .init ops
    (s.heap.programBreak = 0 → s.heap.head = []) ∧
      (s.heap.programBreak ≠ 0 →
        Tiles KmBlock.addr blockLen last s.heap.head s.heap.programBreak) ∧
      (s.live.Pairwise fun p q => p.1 + p.2 ≤ q.1 ∨ q.1 + q.2 ≤ p.1) ∧
      (∀ r ∈ s.live, ∃ b ∈ s.heap.head, b.addr + kmHeaderSize = r.1 ∧ r.2 ≤ b.size ∧ b.free = false) ∧
      ∀ ptr, s.Ok last (.free ptr) → (s.step last (.free ptr)).heap.head.IsChain NotBothFree := by
  intro s
  have hs : s.Inv last :=
    run_invariant (fun _ _ hs hok => hs.step hok) (UHeapSys.inv_init hlast) hops
  have htiled := hs.tiled
  rw [UHeap.Tiled, UHeap.fin] at htiled
  refine ⟨fun hzero => ?_, fun hne => ?_, hs.disjoint, hs.block, fun ptr hptr => ?_⟩
  · rw [if_pos hzero] at htiled
    exact htiled.eq_nil fun b => by rw [blockLen_eq]; omega
  · rwa [if_neg hne] at htiled
  · have hne : ptr ≠ 0 := by
      rintro rfl
      obtain ⟨r, hr, hzero⟩ := List.mem_map.mp hptr
      obtain ⟨b, -, haddr, -⟩ := hs.block r hr
      simp only [kmHeaderSize] at haddr
      omega
    simp only [UHeapSys.step, free, if_neg hne]
    exact isChain_merge _

/-- A program that ends at the start of user memory frees the first of two blocks and then the second,
and gets them back as one. -/
theorem user_heap_tiles_two_blocks :
    Admissible (UHeapSys.Ok 0x8000400000) (UHeapSys.step 0x8000400000) .init
        [.malloc 100 true, .malloc 40 true, .free 0x8000400018, .free 0x80004000A8, .malloc 150 false] ∧
      (let s := run (UHeapSys.step 0x8000400000) .init
        [.malloc 100 true, .malloc 40 true, .free 0x8000400018, .free 0x80004000A8, .malloc 150 false]
      s.live = [(0x8000400018, 150)] ∧
        Tiles KmBlock.addr blockLen 0x8000400000 s.heap.head s.heap.programBreak) := by
  have hops : Admissible (UHeapSys.Ok 0x8000400000) (UHeapSys.step 0x8000400000) .init
      [.malloc 100 true, .malloc 40 true, .free 0x8000400018, .free 0x80004000A8, .malloc 150 false] := by
    refine ⟨?_, ?_, ?_, ?_, ?_, trivial⟩ <;> simp only [UHeapSys.Ok] <;> decide
  exact ⟨hops, by decide, (user_heap_tiles (by decide) hops).2.1 (by decide)⟩

end MyOs.User
