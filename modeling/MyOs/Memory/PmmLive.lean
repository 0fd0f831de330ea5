import MyOs.Memory.Pmm
import MyOs.Lib.Runs

/-!
# Live allocations

The allocator's purpose, in its own terms: it hands out runs of pages, and the runs that are live
at any moment are disjoint from each other and from the pages that were reserved at boot.
`LiveOk` ties that abstract list of live runs to the bitmap and to the cached count; an
allocation that succeeds adds a run (`LiveOk.alloc`) and a free of a live run removes it
(`LiveOk.free`).
-/

namespace MyOs

open Lib List

/-- An allocation: the address and the number of pages. -/
abbrev PageRun := ℕ × ℕ

/-- The page belongs to the run. -/
def InRun (r : PageRun) (page : ℕ) : Prop :=
  r.1 / 4096 ≤ page ∧ page < r.1 / 4096 + r.2

/-- Two runs without a common page. -/
def RunsDisjoint (r r' : PageRun) : Prop :=
  ∀ page, InRun r page → ¬ InRun r' page

lemma RunsDisjoint.symm {r r' : PageRun} (h : RunsDisjoint r r') : RunsDisjoint r' r :=
  fun page h' h'' => h page h'' h'

/-- A run the allocator can have returned. -/
structure RunOk (p : Pmm) (r : PageRun) : Prop where
  aligned : r.1 % 4096 = 0
  pos : 0 < r.2
  ne_zero : r.1 ≠ 0
  tracked : r.1 / 4096 + r.2 ≤ p.totalPagesCnt
  used : ∀ page, InRun r page → bitTest p page = true

/-- The live runs, the reserved pages, the bitmap and the count agree. -/
structure LiveOk (reserved : ℕ → Prop) (p : Pmm) (live : List PageRun) : Prop where
  total : p.totalPagesCnt = maxPages
  count : CountExact p
  zero : reserved 0
  reserved_used : ∀ page, reserved page → bitTest p page = true
  runs : ∀ r ∈ live, RunOk p r
  disjoint : live.Pairwise RunsDisjoint
  unreserved : ∀ r ∈ live, ∀ page, InRun r page → ¬ reserved page

variable {reserved : ℕ → Prop} {p : Pmm} {live : List PageRun}

section

variable (h : LiveOk reserved p live)
include h

lemma LiveOk.perm {live' : List PageRun} (hperm : live.Perm live') : LiveOk reserved p live' where
  total := h.total
  count := h.count
  zero := h.zero
  reserved_used := h.reserved_used
  runs r hr := h.runs r (hperm.mem_iff.mpr hr)
  disjoint := hperm.pairwise h.disjoint fun h' => h'.symm
  unreserved r hr := h.unreserved r (hperm.mem_iff.mpr hr)

/-- Other pages may be reserved instead, if they are taken from the old reserved pages and the free
ones. -/
lemma LiveOk.reserve {reserved' : ℕ → Prop} {p' : Pmm} (htotal : p'.totalPagesCnt = p.totalPagesCnt)
    (hcount : CountExact p') (hused : ∀ i, bitTest p i = true → bitTest p' i = true ∨ reserved i)
    (hzero : reserved' 0)
    (hres : ∀ page, reserved' page →
      bitTest p' page = true ∧ (reserved page ∨ bitTest p page = false)) :
    LiveOk reserved' p' live where
  total := htotal.trans h.total
  count := hcount
  zero := hzero
  reserved_used page hpage := (hres page hpage).1
  runs r hr := by
    have hro := h.runs r hr
    exact ⟨hro.aligned, hro.pos, hro.ne_zero, htotal ▸ hro.tracked,
      fun page hpage => (hused page (hro.used page hpage)).resolve_right
        (h.unreserved r hr page hpage)⟩
  disjoint := h.disjoint
  unreserved r hr page hpage hpage' := by
    rcases (hres page hpage').2 with hold | hclear
    · exact h.unreserved r hr page hpage hold
    · exact used_ne_clear ((h.runs r hr).used page hpage) hclear rfl

/-- **A successful allocation is a new live run.** -/
theorem LiveOk.alloc {pages : ℕ} (hok : (pmmAllocPages p pages).1 ≠ 0) :
    LiveOk reserved (pmmAllocPages p pages).2 (((pmmAllocPages p pages).1, pages) :: live) := by
  have hcount := pmmAllocPages_countExact h.count pages
  rcases pmmAllocPages_cases p pages with heq | ⟨s, hpos, _, hle, hclear, heq⟩
  · rw [heq] at hok
    exact absurd rfl hok
  rw [heq] at hok hcount ⊢
  -- the bits after the call, and the pages of the new run
  have hbit : ∀ i, bitTest { p with
      bitmap := setRun p.bitmap s pages
      freePagesCnt := p.freePagesCnt - pages } i
        = (decide (s ≤ i ∧ i < s + pages) || bitTest p i) := fun i => getBit_setRun _ _ _ _
  have hin : ∀ page, InRun (s * 4096, pages) page ↔ s ≤ page ∧ page < s + pages := by
    intro page
    simp only [InRun]
    omega
  have hnew : ∀ page, InRun (s * 4096, pages) page → bitTest p page = false := by
    intro page hpage
    have := (hin page).mp hpage
    have := hclear (page - s) (by omega)
    rwa [show s + (page - s) = page by omega] at this
  refine ⟨h.total, hcount, h.zero, ?_, ?_, ?_, ?_⟩
  · intro page hres
    rw [hbit, h.reserved_used page hres, Bool.or_true]
  · rw [forall_mem_cons]
    refine ⟨⟨by simp, hpos, hok, ?_, ?_⟩, ?_⟩
    · show s * 4096 / 4096 + pages ≤ p.totalPagesCnt
      omega
    · intro page hpage
      rw [hbit]
      simp [(hin page).mp hpage]
    · intro r hr
      have hro := h.runs r hr
      refine ⟨hro.aligned, hro.pos, hro.ne_zero, hro.tracked, fun page hpage => ?_⟩
      rw [hbit, hro.used page hpage, Bool.or_true]
  · refine List.pairwise_cons.mpr ⟨?_, h.disjoint⟩
    intro r hr page hpage hpage'
    exact used_ne_clear ((h.runs r hr).used page hpage') (hnew page hpage) rfl
  · rw [forall_mem_cons]
    refine ⟨?_, h.unreserved⟩
    intro page hpage hres
    exact used_ne_clear (h.reserved_used page hres) (hnew page hpage) rfl

lemma pmmAllocPages_of_eq_zero {pages : ℕ} (hz : (pmmAllocPages p pages).1 = 0) :
    (pmmAllocPages p pages).2 = p := by
  rcases pmmAllocPages_cases p pages with heq | ⟨s, hpos, _, _, hclear, heq⟩
  · rw [heq]
  · -- a run at address 0 would need page 0 to be clear
    exfalso
    rw [heq] at hz
    have hs : s = 0 := by
      have hz' : s * 4096 = 0 := hz
      omega
    subst hs
    exact used_ne_clear (h.reserved_used 0 h.zero) (hclear 0 hpos) rfl

/-- **A free of a live run removes it** and touches no other run and no reserved page. -/
theorem LiveOk.free {r : PageRun} (hr : r ∈ live) :
    LiveOk reserved (pmmFreePages p r.1 r.2) (live.erase r) := by
  have hkeep : ∀ page, ¬ InRun r page → bitTest p page = true →
      bitTest (pmmFreePages p r.1 r.2) page = true := by
    intro page hout hset
    rw [bitTest_pmmFreePages, hset]
    have : ¬ (r.1 ≠ 0 ∧ r.1 / 4096 ≤ page ∧ page < r.1 / 4096 + r.2 ∧ page < p.totalPagesCnt) :=
      fun hc => hout ⟨hc.2.1, hc.2.2.1⟩
    simp only [this, decide_false, Bool.not_false, Bool.and_true]
  -- the runs that stay are disjoint from the one that goes
  have hapart : ∀ r' ∈ live.erase r, RunsDisjoint r' r := by
    have hperm := perm_cons_erase hr
    have hpair : (r :: live.erase r).Pairwise RunsDisjoint :=
      hperm.pairwise h.disjoint fun h' => h'.symm
    exact fun r' hr' => ((List.pairwise_cons.mp hpair).1 r' hr').symm
  refine ⟨by simpa using h.total, pmmFreePages_countExact h.count _ _, h.zero, ?_, ?_, ?_, ?_⟩
  · intro page hres
    exact hkeep page (fun hin => h.unreserved r hr page hin hres) (h.reserved_used page hres)
  · intro r' hr'
    have hro := h.runs r' (mem_of_mem_erase hr')
    refine ⟨hro.aligned, hro.pos, hro.ne_zero, by simpa using hro.tracked, fun page hpage => ?_⟩
    exact hkeep page (hapart r' hr' page hpage) (hro.used page hpage)
  · exact h.disjoint.sublist erase_sublist
  · exact fun r' hr' => h.unreserved r' (mem_of_mem_erase hr')

end

/-! ## Runs of the allocator -/

/-- A call of the allocator. -/
inductive PmmOp
  | alloc (pages : ℕ)
  | free (addr pages : ℕ)

/-- The allocator together with the runs its clients hold. -/
structure PmmRun where
  pmm : Pmm
  live : List PageRun

/-- One call.  A client holds what it was given until it frees it. -/
def PmmRun.step (s : PmmRun) : PmmOp → PmmRun
  | .alloc pages =>
    let r := pmmAllocPages s.pmm pages
    { pmm := r.2, live := if r.1 = 0 then s.live else (r.1, pages) :: s.live }
  | .free addr pages =>
    { pmm := pmmFreePages s.pmm addr pages, live := s.live.erase (addr, pages) }

/-- Clients free exactly what an allocation returned to them and they still hold; the null result
of a failed allocation may be passed back too. -/
def PmmRun.Ok (s : PmmRun) : PmmOp → Prop
  | .alloc _ => True
  | .free addr pages => (addr, pages) ∈ s.live ∨ addr = 0

theorem LiveOk.step {s : PmmRun} (h : LiveOk reserved s.pmm s.live) {op : PmmOp} (hop : s.Ok op) :
    LiveOk reserved (s.step op).pmm (s.step op).live := by
  cases op with
  | alloc pages =>
    simp only [PmmRun.step]
    split_ifs with hz
    · rw [pmmAllocPages_of_eq_zero h hz]
      exact h
    · exact h.alloc hz
  | free addr pages =>
    simp only [PmmRun.step]
    rcases hop with hmem | hz
    · exact h.free hmem
    · subst hz
      -- nothing is freed, and no live run has the null address
      have hnot : (0, pages) ∉ s.live := fun hmem => (h.runs _ hmem).ne_zero rfl
      rw [pmmFreePages_null, erase_of_not_mem hnot]
      exact h

/-- Every run of the allocator keeps its live allocations apart. -/
theorem LiveOk.run {s : PmmRun} (h : LiveOk reserved s.pmm s.live) {ops : List PmmOp}
    (hops : Admissible PmmRun.Ok PmmRun.step s ops) :
    LiveOk reserved (run PmmRun.step s ops).pmm (run PmmRun.step s ops).live :=
  run_invariant (I := fun s => LiveOk reserved s.pmm s.live) (fun _ _ hs hop => hs.step hop) h hops

end MyOs
