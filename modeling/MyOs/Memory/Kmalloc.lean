import MyOs.Memory.PmmInit

/-!
# The kernel heap

`src/kmalloc.c`: a singly linked list of blocks, each with a 24-byte header, in the order in which
`request_space` obtained their pages.  A block is reused whole, and `kfree` joins list neighbours
that are both free.

`merge_free_blocks` adds the sizes of list neighbours without looking at their addresses.  List
order is the order of allocation, not of addresses, so the joined block can cover pages that
belong to somebody else (`kfree_merge_swallows_foreign_page`).  What does hold is that the heap
stays sound as long as every `kfree` joins only blocks that touch in memory
(`heap_sound_of_contiguous_merges`).

The list is modelled as a Lean list of headers; `g_last` is its last element.  Contents of the
blocks play no part here.
-/

namespace MyOs

open Lib List

/-- `sizeof(km_block_t)`. -/
abbrev kmHeaderSize : ℕ := 24

/-- A block header, with the address it lies at. -/
structure KmBlock where
  addr : ℕ
  size : ℕ
  free : Bool
deriving DecidableEq

/-- The end of a block: header and data. -/
def KmBlock.fin (b : KmBlock) : ℕ := b.addr + kmHeaderSize + b.size

lemma KmBlock.fin_eq (b : KmBlock) : b.fin = b.addr + 24 + b.size := rfl

/-- The allocator's variables, the page allocator below it, and as a history variable the page
runs that `request_space` obtained. -/
structure KmState where
  pmm : Pmm
  heap : List KmBlock
  taken : List PageRun

/-- `request_space`: whole pages for a header and `size` bytes, appended to the list. -/
def requestSpace (s : KmState) (size : ℕ) : Option KmBlock × KmState :=
  let total := (kmHeaderSize + size) % 2 ^ 64
  let pages := (total + pageSize - 1) % 2 ^ 64 / pageSize
  let r := pmmAllocPages s.pmm pages
  if r.1 = 0 then (none, { s with pmm := r.2 })
  else
    let block : KmBlock :=
      { addr := r.1, size := (pages * pageSize - kmHeaderSize) % 2 ^ 64, free := false }
    (some block,
      { pmm := r.2, heap := s.heap ++ [block], taken := (r.1, pages) :: s.taken })

/-- `find_block`: first fit. -/
def findBlock (heap : List KmBlock) (size : ℕ) : Option KmBlock :=
  heap.find? fun b => b.free && decide (b.size ≥ size)

/-- The assignment `block->free = v` to the header at `addr`. -/
def setFree (heap : List KmBlock) (addr : ℕ) (v : Bool) : List KmBlock :=
  heap.map fun b => if b.addr = addr then { b with free := v } else b

/-- `kmalloc`: the address of the data, or 0. -/
def kmalloc (s : KmState) (size : ℕ) : ℕ × KmState :=
  if size = 0 then (0, s)
  else
    let size := alignUpU64 size 16
    match findBlock s.heap size with
    | some block =>
      (block.addr + kmHeaderSize, { s with heap := setFree s.heap block.addr false })
    | none =>
      match requestSpace s size with
      | (some block, s) => (block.addr + kmHeaderSize, s)
      | (none, s) => (0, s)

/-- The assignment `cur->size += sizeof(km_block_t) + cur->next->size`. -/
def KmBlock.join (cur next : KmBlock) : KmBlock :=
  { cur with size := (cur.size + (kmHeaderSize + next.size)) % 2 ^ 64 }

/-- The loop of `merge_free_blocks`, with `cur` the current block and the rest of the list after
it: a free neighbour is added to `cur`, which then looks at the next one. -/
def mergeFrom (cur : KmBlock) : List KmBlock → List KmBlock
  | [] => [cur]
  | next :: rest =>
    if cur.free && next.free then mergeFrom (cur.join next) rest
    else cur :: mergeFrom next rest

def mergeFreeBlocks : List KmBlock → List KmBlock
  | [] => []
  | cur :: rest => mergeFrom cur rest

def kfree (s : KmState) (ptr : ℕ) : KmState :=
  if ptr = 0 then s
  else { s with heap := mergeFreeBlocks (setFree s.heap (ptr - kmHeaderSize) true) }

/-! ## The heap among the other clients of the page allocator -/

/-- The heap, the runs other clients of the page allocator hold, and the results of `kmalloc` that
have not been freed. -/
structure HeapSys where
  km : KmState
  others : List PageRun
  live : List ℕ

/-- A call of the heap or, by another client, of the page allocator. -/
inductive HeapOp
  | kmalloc (size : ℕ)
  | kfree (ptr : ℕ)
  | pmmAlloc (pages : ℕ)
  | pmmFree (addr pages : ℕ)

/-- One call. -/
def HeapSys.step (s : HeapSys) : HeapOp → HeapSys
  | .kmalloc size =>
    let r := kmalloc s.km size
    { s with km := r.2, live := if r.1 = 0 then s.live else r.1 :: s.live }
  | .kfree ptr => { s with km := kfree s.km ptr, live := s.live.erase ptr }
  | .pmmAlloc pages =>
    let r := pmmAllocPages s.km.pmm pages
    { s with
      km := { s.km with pmm := r.2 }
      others := if r.1 = 0 then s.others else (r.1, pages) :: s.others }
  | .pmmFree addr pages =>
    { s with
      km := { s.km with pmm := pmmFreePages s.km.pmm addr pages }
      others := s.others.erase (addr, pages) }

/-- Callers free live results of `kmalloc`, and runs of pages they hold. -/
def HeapSys.Ok (s : HeapSys) : HeapOp → Prop
  | .kmalloc _ => True
  | .kfree ptr => ptr ∈ s.live
  | .pmmAlloc _ => True
  | .pmmFree addr pages => (addr, pages) ∈ s.others

/-- Blocks that do not overlap. -/
def KmBlock.Apart (b c : KmBlock) : Prop := b.fin ≤ c.addr ∨ c.fin ≤ b.addr

instance : Std.Symm KmBlock.Apart := ⟨fun _ _ h => Or.symm h⟩

/-- List neighbours that are both free touch in memory. -/
def Contiguous (b c : KmBlock) : Prop :=
  b.free = true → c.free = true → c.addr = b.fin

/-- The condition under which `kfree` is sound: in the list it is about to merge, free neighbours
touch in memory. -/
def HeapSys.MergesContiguous (s : HeapSys) : HeapOp → Prop
  | .kfree ptr => (setFree s.km.heap (ptr - kmHeaderSize) true).IsChain Contiguous
  | _ => True

/-- **What the heap is for.**  Blocks do not overlap, they lie in the pages the heap obtained, and
live results overlap neither each other nor a page of another client. -/
structure HeapSound (s : HeapSys) : Prop where
  apart : s.km.heap.Pairwise KmBlock.Apart
  inside : ∀ b ∈ s.km.heap, ∀ x, b.addr ≤ x → x < b.fin → ∃ r ∈ s.km.taken, InRun r (x / 4096)
  live_nodup : s.live.Nodup
  live_block : ∀ q ∈ s.live, ∃ b ∈ s.km.heap, b.addr + kmHeaderSize = q ∧ b.free = false
  live_apart : ∀ b ∈ s.km.heap, ∀ c ∈ s.km.heap, b.addr + kmHeaderSize ∈ s.live →
    c.addr + kmHeaderSize ∈ s.live → b.addr ≠ c.addr → b.Apart c
  foreign : ∀ b ∈ s.km.heap, ∀ x, b.addr ≤ x → x < b.fin → ∀ r ∈ s.others, ¬ InRun r (x / 4096)

/-- The invariant: a sound heap over a page allocator whose live runs are those of the heap and of
the other clients. -/
structure HeapOk (reserved : ℕ → Prop) (s : HeapSys) : Prop where
  pages : LiveOk reserved s.km.pmm (s.km.taken ++ s.others)
  apart : s.km.heap.Pairwise KmBlock.Apart
  inside : ∀ b ∈ s.km.heap, ∀ x, b.addr ≤ x → x < b.fin → ∃ r ∈ s.km.taken, InRun r (x / 4096)
  live_nodup : s.live.Nodup
  live_block : ∀ q ∈ s.live, ∃ b ∈ s.km.heap, b.addr + kmHeaderSize = q ∧ b.free = false

variable {reserved : ℕ → Prop}
variable {s : HeapSys} {b : KmBlock} {heap : List KmBlock} {a : ℕ} {v : Bool}

lemma HeapOk.sound (h : HeapOk reserved s) : HeapSound s where
  apart := h.apart
  inside := h.inside
  live_nodup := h.live_nodup
  live_block := h.live_block
  live_apart b hb c hc _ _ hne := h.apart.forall hb hc fun heq => hne (congrArg KmBlock.addr heq)
  foreign b hb x hlo hhi r hr hin := by
    obtain ⟨r', hr', hin'⟩ := h.inside b hb x hlo hhi
    exact (pairwise_append.mp h.pages.disjoint).2.2 r' hr' r hr _ hin' hin

lemma HeapOk.block_unique (h : HeapOk reserved s) {c : KmBlock} (hb : b ∈ s.km.heap)
    (hc : c ∈ s.km.heap) (haddr : b.addr = c.addr) : b = c := by
  by_contra hne
  have : b.Apart c := h.apart.forall hb hc hne
  simp only [KmBlock.Apart, KmBlock.fin_eq] at this
  omega

lemma HeapOk.fin_le (h : HeapOk reserved s) (hb : b ∈ s.km.heap) : b.fin ≤ maxPhysBytes := by
  obtain ⟨r, hr, hin⟩ := h.inside b hb (b.fin - 1) (by simp only [KmBlock.fin_eq]; omega)
    (by simp only [KmBlock.fin_eq]; omega)
  have htracked := (h.pages.runs r (mem_append_left _ hr)).tracked
  rw [h.pages.total] at htracked
  have := hin.2
  simp only [maxPages, maxPhysBytes, pageSize, KmBlock.fin_eq] at *
  omega

/-! ## Marking a block -/

lemma setFree_apart (h : heap.Pairwise KmBlock.Apart) : (setFree heap a v).Pairwise KmBlock.Apart := by
  rw [setFree, pairwise_map]
  refine h.imp fun {b c} hbc => ?_
  simp only [KmBlock.Apart, KmBlock.fin_eq] at *
  split_ifs <;> exact hbc

lemma mem_setFree (h : b ∈ setFree heap a v) :
    ∃ c ∈ heap, c.addr = b.addr ∧ c.size = b.size ∧ (b.addr ≠ a → b.free = c.free) ∧
      (b.addr = a → b.free = v) := by
  rw [setFree, mem_map] at h
  obtain ⟨c, hc, rfl⟩ := h
  refine ⟨c, hc, ?_⟩
  split_ifs with hca
  · exact ⟨rfl, rfl, fun hne => absurd hca hne, fun _ => rfl⟩
  · exact ⟨rfl, rfl, fun _ => rfl, fun heq => absurd heq hca⟩

lemma mem_setFree_of_ne (hb : b ∈ heap) (hne : b.addr ≠ a) : b ∈ setFree heap a v := by
  rw [setFree, mem_map]
  exact ⟨b, hb, if_neg hne⟩

lemma mem_setFree_self (hb : b ∈ heap) : { b with free := v } ∈ setFree heap b.addr v := by
  rw [setFree, mem_map]
  exact ⟨b, hb, if_pos rfl⟩

/-! ## Merging -/

lemma KmBlock.join_fin {cur next : KmBlock} (htouch : next.addr = cur.fin)
    (hfin : next.fin ≤ maxPhysBytes) : (cur.join next).fin = next.fin := by
  have hsize : (cur.size + (24 + next.size)) % 2 ^ 64 = cur.size + (24 + next.size) := by
    refine Nat.mod_eq_of_lt ?_
    simp only [KmBlock.fin_eq, maxPhysBytes] at *
    omega
  show cur.addr + 24 + (cur.size + (24 + next.size)) % 2 ^ 64 = next.addr + 24 + next.size
  rw [hsize, htouch, KmBlock.fin_eq]
  omega

section Merge

variable {cur next : KmBlock} {rest : List KmBlock}

/-- Two free neighbours touch, and joined they reach as far as before. -/
lemma join_spec (hfree : (cur.free && next.free) = true) (hchain : (cur :: next :: rest).IsChain Contiguous)
    (hfin : ∀ b ∈ cur :: next :: rest, b.fin ≤ maxPhysBytes) :
    next.addr = cur.fin ∧ (cur.join next).fin = next.fin ∧ (cur.join next :: rest).IsChain Contiguous ∧
      ∀ b ∈ cur.join next :: rest, b.fin ≤ maxPhysBytes := by
  rw [Bool.and_eq_true] at hfree
  rw [isChain_cons_cons] at hchain
  rw [forall_mem_cons, forall_mem_cons] at hfin
  have htouch := hchain.1 hfree.1 hfree.2
  have hjoin := KmBlock.join_fin htouch hfin.2.1
  refine ⟨htouch, hjoin, ?_, forall_mem_cons.mpr ⟨hjoin ▸ hfin.2.1, hfin.2.2⟩⟩
  cases rest with
  | nil => exact isChain_singleton _
  | cons third rest =>
    rw [isChain_cons_cons] at hchain ⊢
    exact ⟨fun _ hthird => hjoin ▸ hchain.2.1 hfree.2 hthird, hchain.2.2⟩

/-- What contained every block of a list contains every block made of it by merging. -/
lemma mergeFrom_inside {P : ℕ → Prop} (hchain : (cur :: rest).IsChain Contiguous)
    (hfin : ∀ b ∈ cur :: rest, b.fin ≤ maxPhysBytes)
    (hin : ∀ b ∈ cur :: rest, ∀ x, b.addr ≤ x → x < b.fin → P x) :
    ∀ b ∈ mergeFrom cur rest, ∀ x, b.addr ≤ x → x < b.fin → P x := by
  fun_induction mergeFrom cur rest
  case case1 => exact hin
  case case2 cur next rest hfree ih =>
    obtain ⟨htouch, hjoin, hchain', hfin'⟩ := join_spec hfree hchain hfin
    simp only [forall_mem_cons] at hin
    refine ih hchain' hfin' (forall_mem_cons.mpr ⟨fun x hlo hhi => ?_, hin.2.2⟩)
    by_cases hx : x < cur.fin
    · exact hin.1 x hlo hx
    · exact hin.2.1 x (by omega) (hjoin ▸ hhi)
  case case3 ih =>
    rw [forall_mem_cons] at hin hfin ⊢
    exact ⟨hin.1, ih (isChain_cons_cons.mp hchain).2 hfin.2 hin.2⟩

lemma mergeFrom_apart (hchain : (cur :: rest).IsChain Contiguous)
    (hfin : ∀ b ∈ cur :: rest, b.fin ≤ maxPhysBytes) (hapart : (cur :: rest).Pairwise KmBlock.Apart) :
    (mergeFrom cur rest).Pairwise KmBlock.Apart := by
  fun_induction mergeFrom cur rest
  case case1 => exact hapart
  case case2 cur next rest hfree ih =>
    obtain ⟨htouch, hjoin, hchain', hfin'⟩ := join_spec hfree hchain hfin
    simp only [pairwise_cons, forall_mem_cons] at hapart
    refine ih hchain' hfin' (pairwise_cons.mpr ⟨fun b hb => ?_, hapart.2.2⟩)
    have h1 := hapart.1.2 b hb
    have h2 := hapart.2.1 b hb
    have haddr : (cur.join next).addr = cur.addr := rfl
    simp only [KmBlock.Apart, hjoin, haddr] at *
    simp only [KmBlock.fin_eq] at *
    omega
  case case3 cur next rest _ ih =>
    obtain ⟨hhead, htail⟩ := pairwise_cons.mp hapart
    have hchain' := (isChain_cons_cons.mp hchain).2
    have hfin' := (forall_mem_cons.mp hfin).2
    refine pairwise_cons.mpr ⟨fun b hb => ?_, ih hchain' hfin' htail⟩
    -- the complement of `cur` contains the blocks before merging, hence after it
    have hcover : ∀ x, b.addr ≤ x → x < b.fin → ¬ (cur.addr ≤ x ∧ x < cur.fin) := by
      refine mergeFrom_inside hchain' hfin' ?_ b hb
      intro c hc x hlo hhi hcur
      have := hhead c hc
      simp only [KmBlock.Apart] at this
      omega
    have hmax := hcover (max b.addr cur.addr) (le_max_left _ _)
    simp only [KmBlock.Apart, KmBlock.fin_eq] at *
    omega

lemma mem_mergeFrom_of_used (hb : b ∈ cur :: rest) (hused : b.free = false) : b ∈ mergeFrom cur rest := by
  fun_induction mergeFrom cur rest
  case case1 => exact hb
  case case2 cur next rest hfree ih =>
    rw [mem_cons, mem_cons] at hb
    rcases hb with rfl | rfl | hb
    · simp [hused] at hfree
    · simp [hused] at hfree
    · exact ih (mem_cons_of_mem _ hb)
  case case3 ih =>
    rcases mem_cons.mp hb with rfl | hb
    · exact mem_cons_self
    · exact mem_cons_of_mem _ (ih hb)

end Merge

/-! ## One call keeps the invariant -/

lemma HeapOk.reuse (h : HeapOk reserved s) (hb : b ∈ s.km.heap) (hfree : b.free = true) :
    HeapOk reserved { s with
      km := { s.km with heap := setFree s.km.heap b.addr false }
      live := (b.addr + kmHeaderSize) :: s.live } where
  pages := h.pages
  apart := setFree_apart h.apart
  inside c hc x hlo hhi := by
    obtain ⟨c', hc', haddr, hsize, _⟩ := mem_setFree hc
    refine h.inside c' hc' x (by rw [haddr]; exact hlo) ?_
    simp only [KmBlock.fin_eq, haddr, hsize] at hhi ⊢
    exact hhi
  live_nodup := by
    refine nodup_cons.mpr ⟨fun hmem => ?_, h.live_nodup⟩
    obtain ⟨c, hc, haddr, hused⟩ := h.live_block _ hmem
    have : c = b := h.block_unique hc hb (by omega)
    rw [this, hfree] at hused
    exact Bool.noConfusion hused
  live_block q hq := by
    rcases mem_cons.mp hq with rfl | hq
    · exact ⟨{ b with free := false }, mem_setFree_self hb, rfl, rfl⟩
    · obtain ⟨c, hc, haddr, hused⟩ := h.live_block q hq
      have hne : c.addr ≠ b.addr := fun heq => by
        rw [h.block_unique hc hb heq, hfree] at hused
        exact Bool.noConfusion hused
      exact ⟨c, mem_setFree_of_ne hc hne, haddr, hused⟩

lemma HeapOk.extend (h : HeapOk reserved s) {pages : ℕ} (hok : (pmmAllocPages s.km.pmm pages).1 ≠ 0) :
    HeapOk reserved { s with
      km := {
        pmm := (pmmAllocPages s.km.pmm pages).2
        heap := s.km.heap ++ [{
          addr := (pmmAllocPages s.km.pmm pages).1
          size := (pages * pageSize - kmHeaderSize) % 2 ^ 64
          free := false }]
        taken := ((pmmAllocPages s.km.pmm pages).1, pages) :: s.km.taken }
      live := ((pmmAllocPages s.km.pmm pages).1 + kmHeaderSize) :: s.live } := by
  have hpages := h.pages.alloc hok
  set a := (pmmAllocPages s.km.pmm pages).1 with ha
  set new : KmBlock :=
    { addr := a, size := (pages * pageSize - kmHeaderSize) % 2 ^ 64, free := false } with hnew
  have hrun := hpages.runs (a, pages) (by simp)
  have hfin : new.fin = a + pages * 4096 := by
    have htracked := hrun.tracked
    have hpos := hrun.pos
    rw [hpages.total] at htracked
    simp only [maxPages, maxPhysBytes, pageSize] at htracked hpos
    simp only [hnew, KmBlock.fin, pageSize, kmHeaderSize]
    rw [Nat.mod_eq_of_lt (by omega)]
    omega
  have hin : ∀ x, a ≤ x → x < new.fin → InRun (a, pages) (x / 4096) := by
    intro x hlo hhi
    have haligned : a % 4096 = 0 := hrun.aligned
    rw [hfin] at hhi
    exact ⟨Nat.div_le_div_right hlo, by show x / 4096 < a / 4096 + pages; omega⟩
  -- an old block has its bytes in old runs, which have no page of the new one
  have hapart : ∀ b ∈ s.km.heap, b.Apart new := by
    intro b hb
    by_contra hnot
    have hdisj := (pairwise_cons.mp hpages.disjoint).1
    simp only [KmBlock.Apart, not_or, not_le] at hnot
    have hlo : a < b.fin := hnot.1
    have hx : max b.addr a < b.fin := max_lt (by simp only [KmBlock.fin_eq]; omega) hlo
    have hx' : max b.addr a < new.fin := by
      have hpos : 0 < pages := hrun.pos
      exact max_lt hnot.2 (by omega)
    obtain ⟨r, hr, hbin⟩ := h.inside b hb (max b.addr a) (le_max_left _ _) hx
    exact hdisj r (mem_append_left _ hr) _ (hin _ (le_max_right _ _) hx') hbin
  refine ⟨hpages, ?_, ?_, ?_, ?_⟩
  · refine pairwise_append.mpr ⟨h.apart, pairwise_singleton _ _, ?_⟩
    intro b hb c hc
    rw [mem_singleton] at hc
    subst hc
    exact hapart b hb
  · intro b hb x hlo hhi
    rcases mem_append.mp hb with hb | hb
    · obtain ⟨r, hr, hbin⟩ := h.inside b hb x hlo hhi
      exact ⟨r, mem_cons_of_mem _ hr, hbin⟩
    · rw [mem_singleton] at hb
      subst hb
      exact ⟨(a, pages), by simp, hin x hlo hhi⟩
  · refine nodup_cons.mpr ⟨fun hmem => ?_, h.live_nodup⟩
    obtain ⟨c, hc, haddr, _⟩ := h.live_block _ hmem
    have := hapart c hc
    simp only [KmBlock.Apart, KmBlock.fin_eq, hnew] at this
    omega
  · intro q hq
    rcases mem_cons.mp hq with rfl | hq
    · exact ⟨new, by simp, rfl, rfl⟩
    · obtain ⟨c, hc, hrest⟩ := h.live_block q hq
      exact ⟨c, mem_append_left _ hc, hrest⟩

/-- The number of pages `request_space` asks for. -/
def requestPages (size : ℕ) : ℕ :=
  ((kmHeaderSize + size) % 2 ^ 64 + pageSize - 1) % 2 ^ 64 / pageSize

/-- **What `kmalloc` can do**: refuse, reuse a free block, or take new pages. -/
theorem kmalloc_cases (s : KmState) (size : ℕ) :
    (kmalloc s size = (0, s)) ∨
    (∃ b ∈ s.heap, b.free = true ∧ alignUpU64 size 16 ≤ b.size ∧
      kmalloc s size = (b.addr + kmHeaderSize, { s with heap := setFree s.heap b.addr false })) ∨
    (∃ r, r = pmmAllocPages s.pmm (requestPages (alignUpU64 size 16)) ∧ r.1 = 0 ∧
      kmalloc s size = (0, { s with pmm := r.2 })) ∨
    (∃ pages r, pages = requestPages (alignUpU64 size 16) ∧ r = pmmAllocPages s.pmm pages ∧
      r.1 ≠ 0 ∧
      kmalloc s size = (r.1 + kmHeaderSize,
        { pmm := r.2
          heap := s.heap ++
            [{ addr := r.1, size := (pages * pageSize - kmHeaderSize) % 2 ^ 64, free := false }]
          taken := (r.1, pages) :: s.taken })) := by
  rw [kmalloc]
  by_cases hzero : size = 0
  · exact Or.inl (if_pos hzero)
  rw [if_neg hzero]
  cases hfind : findBlock s.heap (alignUpU64 size 16) with
  | some b =>
    have hfit := find?_some hfind
    simp only [Bool.and_eq_true, decide_eq_true_eq] at hfit
    exact Or.inr (Or.inl
      ⟨b, mem_of_find?_eq_some hfind, hfit.1, hfit.2, by simp only [hfind]⟩)
  | none =>
    refine Or.inr (Or.inr ?_)
    by_cases hnull : (pmmAllocPages s.pmm (requestPages (alignUpU64 size 16))).1 = 0
    · refine Or.inl ⟨_, rfl, hnull, ?_⟩
      rw [requestPages] at hnull
      simp only [hfind, requestSpace, if_pos hnull, requestPages]
    · refine Or.inr ⟨_, _, rfl, rfl, hnull, ?_⟩
      rw [requestPages] at hnull
      simp only [hfind, requestSpace, if_neg hnull, requestPages]

lemma HeapOk.kmalloc (h : HeapOk reserved s) (size : ℕ) : HeapOk reserved (s.step (.kmalloc size)) := by
  have hne : ∀ a, a + kmHeaderSize ≠ 0 := by intro a; simp only [kmHeaderSize]; omega
  simp only [HeapSys.step]
  rcases kmalloc_cases s.km size with heq | ⟨b, hb, hfree, _, heq⟩ | ⟨r, rfl, hnull, heq⟩ |
    ⟨pages, r, _, rfl, hok, heq⟩
  · rw [heq]
    exact h
  · rw [heq, if_neg (hne _)]
    exact h.reuse hb hfree
  · rw [heq, pmmAllocPages_of_eq_zero h.pages hnull]
    exact h
  · rw [heq, if_neg (hne _)]
    exact h.extend hok

/-- `kfree` of a live result keeps the invariant when it joins only blocks that touch. -/
lemma HeapOk.kfree (h : HeapOk reserved s) {ptr : ℕ} (hptr : ptr ∈ s.live)
    (hmerge : s.MergesContiguous (.kfree ptr)) : HeapOk reserved (s.step (.kfree ptr)) := by
  obtain ⟨b, hb, hbaddr, _⟩ := h.live_block ptr hptr
  have hne : ptr ≠ 0 := by simp only [kmHeaderSize] at hbaddr; omega
  have hsub : ptr - kmHeaderSize = b.addr := by simp only [kmHeaderSize] at *; omega
  simp only [HeapSys.step, MyOs.kfree, if_neg hne]
  simp only [HeapSys.MergesContiguous, hsub] at hmerge
  rw [hsub]
  -- marking changes neither addresses nor sizes
  have hmarked : ∀ c ∈ setFree s.km.heap b.addr true, ∃ c' ∈ s.km.heap,
      c'.addr = c.addr ∧ c'.fin = c.fin := by
    intro c hc
    obtain ⟨c', hc', haddr, hsize, _⟩ := mem_setFree hc
    exact ⟨c', hc', haddr, by rw [KmBlock.fin_eq, KmBlock.fin_eq, haddr, hsize]⟩
  have hapart := setFree_apart (a := b.addr) (v := true) h.apart
  have hfin : ∀ c ∈ setFree s.km.heap b.addr true, c.fin ≤ maxPhysBytes := by
    intro c hc
    obtain ⟨c', hc', _, heq⟩ := hmarked c hc
    rw [← heq]
    exact h.fin_le hc'
  have hin : ∀ c ∈ setFree s.km.heap b.addr true, ∀ x, c.addr ≤ x → x < c.fin →
      ∃ r ∈ s.km.taken, InRun r (x / 4096) := by
    intro c hc x hlo hhi
    obtain ⟨c', hc', haddr, heq⟩ := hmarked c hc
    exact h.inside c' hc' x (by omega) (by omega)
  have hused : ∀ q ∈ s.live.erase ptr, ∃ c ∈ setFree s.km.heap b.addr true,
      c.addr + kmHeaderSize = q ∧ c.free = false := by
    intro q hq
    rw [h.live_nodup.mem_erase_iff] at hq
    obtain ⟨c, hc, haddr, hfree⟩ := h.live_block q hq.2
    exact ⟨c, mem_setFree_of_ne hc (fun heq => hq.1 (by omega)), haddr, hfree⟩
  refine ⟨h.pages, ?_, ?_, h.live_nodup.erase _, ?_⟩
  all_goals
    cases hlist : setFree s.km.heap b.addr true with
    | nil => simp_all [mergeFreeBlocks]
    | cons cur rest =>
      rw [hlist] at hmerge hapart hfin hin hused
      first
        | exact mergeFrom_apart hmerge hfin hapart
        | exact mergeFrom_inside hmerge hfin hin
        | exact fun q hq => (hused q hq).imp fun c hc =>
          ⟨mem_mergeFrom_of_used hc.1 hc.2.2, hc.2⟩

/-- **One call keeps the invariant**, if a `kfree` joins only blocks that touch. -/
theorem HeapOk.step (h : HeapOk reserved s) {op : HeapOp} (hop : s.Ok op)
    (hmerge : s.MergesContiguous op) : HeapOk reserved (s.step op) := by
  cases op with
  | kmalloc size => exact h.kmalloc size
  | kfree ptr => exact h.kfree hop hmerge
  | pmmAlloc pages =>
    simp only [HeapSys.step]
    split_ifs with hnull
    · rw [pmmAllocPages_of_eq_zero h.pages hnull]
      exact h
    · refine ⟨(h.pages.alloc hnull).perm ?_, h.apart, h.inside, h.live_nodup, h.live_block⟩
      exact perm_middle.symm
  | pmmFree addr pages =>
    have hmem : (addr, pages) ∈ s.others := hop
    -- the run is the client's, so it is not one of the heap's
    have hnot : (addr, pages) ∉ s.km.taken := by
      intro htaken
      have hpos := (h.pages.runs _ (mem_append_right _ hmem)).pos
      exact (pairwise_append.mp h.pages.disjoint).2.2 _ htaken _ hmem (addr / 4096)
        ⟨le_refl _, Nat.lt_add_of_pos_right hpos⟩ ⟨le_refl _, Nat.lt_add_of_pos_right hpos⟩
    have hpages := h.pages.free (r := (addr, pages)) (mem_append_right _ hmem)
    rw [erase_append_right _ hnot] at hpages
    exact ⟨hpages, h.apart, h.inside, h.live_nodup, h.live_block⟩

/-! ## Whole runs -/

/-- The heap after `kmalloc_init`, over the page allocator as boot left it. -/
def HeapSys.init (p : Pmm) : HeapSys :=
  { km := { pmm := p, heap := [], taken := [] }, others := [], live := [] }

/-- **The heap over whole runs.**  After a boot that found a memory map, in every run of heap calls
and of calls of the page allocator by other clients in which every `kfree` finds free list
neighbours touching in memory, the heap stays sound. -/
theorem heap_sound_of_contiguous_merges {fuel : ℕ} {b : Boot} {p₀ p : Pmm}
    (h : pmmInit fuel b p₀ = some (p, true)) {ops : List HeapOp}
    (hops : Admissible (fun s op => s.Ok op ∧ s.MergesContiguous op) HeapSys.step
      (HeapSys.init p) ops) :
    HeapSound (run HeapSys.step (HeapSys.init p) ops) := by
  have hinit : HeapOk b.Reserved (HeapSys.init p) :=
    ⟨pmmInit_liveOk h, List.Pairwise.nil, by simp [HeapSys.init], nodup_nil, by simp [HeapSys.init]⟩
  exact (run_invariant (I := HeapOk b.Reserved) (fun _ _ hs hop => hs.step hop.1 hop.2)
    hinit hops).sound

instance (b c : KmBlock) : Decidable (Contiguous b c) :=
  inferInstanceAs (Decidable (b.free = true → c.free = true → c.addr = b.fin))

/-- Two blocks from consecutive pages, freed one after the other. -/
theorem heap_sound_of_contiguous_merges_small :
    HeapSound (run HeapSys.step (HeapSys.init smallPmm)
      [.kmalloc 4000, .kmalloc 4000, .kfree 0x200018, .kfree 0x201018]) := by
  refine heap_sound_of_contiguous_merges smallPmm_boot
    ⟨⟨trivial, trivial⟩, ⟨trivial, trivial⟩, ⟨?_, ?_⟩, ⟨?_, ?_⟩, trivial⟩
  · show 0x200018 ∈ HeapSys.live _
    decide +kernel
  · show List.IsChain Contiguous _
    decide +kernel
  · show 0x201018 ∈ HeapSys.live _
    decide +kernel
  · show List.IsChain Contiguous _
    decide +kernel

/-- The pages of two blocks with another client's page between them. -/
def foreignPageOps : List HeapOp :=
  [.kmalloc 4000, .pmmAlloc 1, .kmalloc 4000, .kfree 0x200018, .kfree 0x202018, .kmalloc 8000]

/-- **Without the condition the heap is not sound.**  Another client allocates a page between two
calls of `kmalloc`; when both blocks have been freed they are joined to a block that spans that
page, and the next `kmalloc` hands it out. -/
theorem kfree_merge_swallows_foreign_page :
    Admissible HeapSys.Ok HeapSys.step (HeapSys.init smallPmm) foreignPageOps ∧
      let s := run HeapSys.step (HeapSys.init smallPmm) foreignPageOps
      s.live = [0x200018] ∧ s.others = [(0x201000, 1)] ∧
        s.km.heap = [{ addr := 0x200000, size := 0x1FE8, free := false }] ∧ ¬ HeapSound s := by
  have hrun : (run HeapSys.step (HeapSys.init smallPmm) foreignPageOps).live = [0x200018] ∧
      (run HeapSys.step (HeapSys.init smallPmm) foreignPageOps).others = [(0x201000, 1)] ∧
      (run HeapSys.step (HeapSys.init smallPmm) foreignPageOps).km.heap =
        [{ addr := 0x200000, size := 0x1FE8, free := false }] := by
    decide +kernel
  refine ⟨⟨trivial, trivial, trivial, ?_, ?_, trivial, trivial⟩, hrun.1, hrun.2.1, hrun.2.2, ?_⟩
  · show 0x200018 ∈ HeapSys.live _
    decide +kernel
  · show 0x202018 ∈ HeapSys.live _
    decide +kernel
  · -- byte 0x201000 of the block is the other client's
    intro hsound
    refine hsound.foreign { addr := 0x200000, size := 0x1FE8, free := false } ?_ 0x201000
      (by decide) (by decide) (0x201000, 1) ?_ ⟨by decide, by decide⟩
    · rw [hrun.2.2]; simp
    · rw [hrun.2.1]; simp

end MyOs
