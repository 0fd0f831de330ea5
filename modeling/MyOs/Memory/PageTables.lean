import MyOs.Memory.PmmCalls
import MyOs.Memory.Vmm

/-!
# The invariant of the page tables

The tables of all user spaces form a forest in physical memory: `VmOk D` says that the frames
reached from the registered PML4s by at most `D` entries, the first of them not entry 0, are
allocated, aligned and reached only once.  With `D = 3` these are the tables; with `D = 4` they
include the mapped frames, which then belong to exactly one mapping each.

`Grows` describes what `ensure_table` may do on behalf of one space: link fresh tables into that
space and leave every translation as it is.  It composes, so the three levels of `map_page_inner`
are one `Grows`, and they get through just when there are frames for the tables that are missing
(`ensurePath_exact`).
-/

namespace MyOs

open Lib List

/-! ## Entries -/

lemma and_vmmAddrMask (x : ℕ) : x &&& vmmAddrMask = x % 2 ^ 52 / 2 ^ 12 * 2 ^ 12 :=
  and_highMask (n := 52) (k := 12) (by decide) x

lemma and_vmmFlagHuge (x : ℕ) : x &&& vmmFlagHuge = x % 2 ^ 8 / 2 ^ 7 * 2 ^ 7 :=
  and_highMask (n := 8) (k := 7) (by decide) x

lemma and_vmmFlagPresent (x : ℕ) : x &&& vmmFlagPresent = x % 2 := Nat.and_one_is_mod x

lemma pml4FromCr3_of_aligned {r : ℕ} (haligned : r % 4096 = 0) (hlt : r < 2 ^ 64) :
    pml4FromCr3 r = r := by
  rw [pml4FromCr3, and_highMask (by decide)]
  omega

lemma readEntry_writeEntry (m : Memory) (t : ℕ) (i : Idx) (v : ℕ) :
    readEntry (writeEntry m t i v) t i = v % 2 ^ 64 := by
  rw [readEntry, writeEntry, loadLE_storeLE, show (256 : ℕ) ^ 8 = 2 ^ 64 by norm_num]

variable {m : Memory} {a f t v : ℕ} {i : Idx} {p q : List Idx}

lemma readEntry_writeEntry_of_ne {t' : ℕ} {j : Idx} (ht : t % 4096 = 0) (ht' : t' % 4096 = 0)
    (hne : t' ≠ t ∨ j ≠ i) : readEntry (writeEntry m t i v) t' j = readEntry m t' j := by
  have hi := i.isLt
  have hj := j.isLt
  refine loadLE_storeLE_outside ?_
  rcases hne with hne | hne
  · omega
  · have : (j : ℕ) ≠ i := fun h => hne (Fin.ext h)
    by_cases htt : t = t' <;> omega

lemma readEntry_congr {m' : Memory} (ht : t % 4096 = 0) (h : ∀ a, a / 4096 = t / 4096 → m' a = m a)
    (i : Idx) : readEntry m' t i = readEntry m t i := by
  have hi := i.isLt
  exact loadLE_congr fun x h1 h2 => h x (by omega)

lemma tableChild_congr {m' : Memory} (h : readEntry m' t i = readEntry m t i) :
    tableChild m' t i = tableChild m t i := by
  rw [tableChild, tableChild, h]

lemma tableChild_of_absent (h : readEntry m t i &&& vmmFlagPresent = 0) :
    tableChild m t i = none := if_pos h

lemma tableChild_of_present (h : readEntry m t i &&& vmmFlagPresent ≠ 0) :
    tableChild m t i = some (readEntry m t i &&& vmmAddrMask) := if_neg h

lemma readEntry_fill (m : Memory) (t : ℕ) (i : Idx) : readEntry (fill m t pageSize 0) t i = 0 := by
  have hi := i.isLt
  refine loadLE_eq_zero fun x h1 h2 => overlay_inside (by omega) ?_
  simp only [pageSize]
  omega

lemma writeEntry_outside (h : a < t + 8 * i ∨ t + 8 * i + 8 ≤ a) : writeEntry m t i v a = m a := by
  rw [writeEntry, storeLE, overlay_outside h]

lemma fill_outside {v : UInt8} (ht : t % 4096 = 0) (h : a / 4096 ≠ t / 4096) :
    fill m t pageSize v a = m a := by
  refine overlay_outside ?_
  simp only [pageSize]
  omega

lemma tableFlags_cases (flags : ℕ) : tableFlags flags = 3 ∨ tableFlags flags = 7 := by
  rw [tableFlags]
  split_ifs
  · exact Or.inl rfl
  · exact Or.inr rfl

lemma tableEntry_spec (haligned : f % 4096 = 0) (hlt : f < 2 ^ 52) (flags : ℕ) :
    (f ||| tableFlags flags) % 2 ^ 64 &&& vmmFlagPresent ≠ 0 ∧
      (f ||| tableFlags flags) % 2 ^ 64 &&& vmmAddrMask = f ∧
      (f ||| tableFlags flags) % 2 ^ 64 &&& vmmFlagHuge = 0 := by
  have hor : ∀ b, b < 2 ^ 12 → f ||| b = f + b := by
    intro b hb
    have := or_eq_add_of_lt (f / 4096) hb
    rwa [show f / 4096 * 2 ^ 12 = f by omega] at this
  rw [and_vmmFlagPresent, and_vmmAddrMask, and_vmmFlagHuge]
  rcases tableFlags_cases flags with h | h <;> rw [h, hor _ (by decide)] <;> omega

lemma leafEntry_spec (phys : ℕ) {flags : ℕ} (hlt : flags < 2 ^ 64)
    (hflags : flags &&& vmmAddrMask = 0) :
    ((phys &&& vmmAddrMask) ||| (flags ||| vmmFlagPresent)) % 2 ^ 64 =
        (phys &&& vmmAddrMask) ||| (flags ||| vmmFlagPresent) ∧
      ((phys &&& vmmAddrMask) ||| (flags ||| vmmFlagPresent)) &&& vmmFlagPresent ≠ 0 ∧
      ((phys &&& vmmAddrMask) ||| (flags ||| vmmFlagPresent)) &&& vmmAddrMask =
        phys &&& vmmAddrMask := by
  refine ⟨Nat.mod_eq_of_lt ?_, ?_, ?_⟩
  · refine Nat.or_lt_two_pow ?_ (Nat.or_lt_two_pow hlt (by decide))
    exact lt_of_le_of_lt Nat.and_le_right (by decide)
  · rw [Nat.and_or_distrib_right, Nat.and_or_distrib_right]
    have hone : vmmFlagPresent &&& vmmFlagPresent = 1 := by decide
    rw [hone]
    intro h
    have := Nat.or_eq_zero_iff.mp (Nat.or_eq_zero_iff.mp h).2
    exact absurd this.2 (by decide)
  · rw [Nat.and_or_distrib_right, Nat.and_or_distrib_right, hflags, Nat.and_assoc, Nat.and_self]
    have hone : vmmFlagPresent &&& vmmAddrMask = 0 := by decide
    rw [hone, Nat.or_zero, Nat.or_zero]

/-! ## Frames from the page allocator -/

/-- The allocator handed out the frame `f`. -/
structure Handed (p : Pmm) (f : ℕ) (p' : Pmm) : Prop where
  ne_zero : f ≠ 0
  aligned : f % 4096 = 0
  tracked : f / 4096 < p.totalPagesCnt
  clear : bitTest p (f / 4096) = false
  bits : ∀ i, bitTest p' i = (decide (f / 4096 = i) || bitTest p i)
  total : p'.totalPagesCnt = p.totalPagesCnt
  count : CountExact p → CountExact p'

lemma pmmAllocPages_one {p : Pmm} (hzero : bitTest p 0 = true) :
    pmmAllocPages p 1 = (0, p) ∨ ∃ f p', pmmAllocPages p 1 = (f, p') ∧ Handed p f p' := by
  have hcount : CountExact p → CountExact (pmmAllocPages p 1).2 :=
    fun h => pmmAllocPages_countExact h 1
  rcases pmmAllocPages_cases p 1 with heq | ⟨s, _, _, hle, hclear, heq⟩
  · exact Or.inl heq
  refine Or.inr ⟨_, _, heq, ?_⟩
  have hs : bitTest p s = false := hclear 0 (by decide)
  have hne : s ≠ 0 := (used_ne_clear hzero hs).symm
  rw [heq] at hcount
  refine ⟨by omega, by omega, by omega, ?_, fun i => ?_, rfl, hcount⟩
  · rw [Nat.mul_div_cancel s (by decide)]
    exact hs
  · show getBit (setRun p.bitmap s 1) i = _
    rw [getBit_setRun, Nat.mul_div_cancel s (by decide)]
    have : (s ≤ i ∧ i < s + 1) ↔ s = i := by omega
    simp only [this, bitTest]

lemma bitTest_free_frame {p : Pmm} (hne : f ≠ 0) (hlt : f / 4096 < p.totalPagesCnt) (i : ℕ) :
    bitTest (pmmFreePages p f 1) i = (bitTest p i && !decide (f / 4096 = i)) := by
  rw [bitTest_pmmFreePages]
  have hiff : (f ≠ 0 ∧ f / 4096 ≤ i ∧ i < f / 4096 + 1 ∧ i < p.totalPagesCnt) ↔ f / 4096 = i := by
    omega
  simp only [hiff]

lemma Vm.allocPage_cases {s : Vm} (hzero : bitTest s.pmm 0 = true) :
    s.allocPage = (0, s) ∨ ∃ f p', Handed s.pmm f p' ∧
      s.allocPage = (f, { s with pmm := p', handed := f :: s.handed }) := by
  rcases pmmAllocPages_one hzero with heq | ⟨f, p', heq, hf⟩
  · left
    simp only [Vm.allocPage, heq, if_true]
  · right
    refine ⟨f, p', hf, ?_⟩
    simp only [Vm.allocPage, heq, if_neg hf.ne_zero]

lemma Handed.freePages {p p' : Pmm} (h : Handed p f p') (hc : CountExact p) :
    p'.freePagesCnt + 1 = p.freePagesCnt := by
  have hset : clearCount p'.bitmap p.totalPagesCnt =
      clearCount (setBit p.bitmap (f / 4096)) p.totalPagesCnt := by
    refine clearCount_congr fun i _ => ?_
    rw [getBit_setBit]
    exact h.bits i
  rw [h.count hc, hc, h.total, hset]
  exact clearCount_setBit h.tracked h.clear

lemma Vm.allocPage_exact {s : Vm} (hzero : bitTest s.pmm 0 = true) (hc : CountExact s.pmm) :
    s.pmm.freePagesCnt = 0 ∧ s.allocPage = (0, s) ∨
      ∃ f p', Handed s.pmm f p' ∧ p'.freePagesCnt + 1 = s.pmm.freePagesCnt ∧
        s.allocPage = (f, { s with pmm := p', handed := f :: s.handed }) := by
  rcases s.allocPage_cases hzero with heq | ⟨f, p', hf, heq⟩
  · exact Or.inl ⟨(pmmAllocPages_one_eq_zero hzero hc).mp (congrArg Prod.fst heq), heq⟩
  · exact Or.inr ⟨f, p', hf, hf.freePages hc, heq⟩

lemma allocZeroPage_cases {s : Vm} (hzero : bitTest s.pmm 0 = true) :
    allocZeroPage s = (0, s) ∨ ∃ f p', Handed s.pmm f p' ∧
      allocZeroPage s = (f, { s with
        pmm := p', mem := fill s.mem f pageSize 0, handed := f :: s.handed }) := by
  rcases s.allocPage_cases hzero with heq | ⟨f, p', hf, heq⟩
  · left
    simp only [allocZeroPage, heq, if_true]
  · right
    refine ⟨f, p', hf, ?_⟩
    simp only [allocZeroPage, heq, if_neg hf.ne_zero]

/-! ## The invariant -/

/-- A path of at most `D` entries from a PML4 that does not start with the kernel's entry. -/
def UserPath (D : ℕ) (p : List Idx) : Prop := p.length ≤ D ∧ p.head? ≠ some 0

lemma UserPath.of_isPrefix {D : ℕ} (h : UserPath D p) (hq : q <+: p) : UserPath D q := by
  refine ⟨hq.length_le.trans h.1, fun hhead => h.2 ?_⟩
  obtain ⟨rest, rfl⟩ := hq
  rw [head?_append, hhead]
  rfl

lemma UserPath.closed {D : ℕ} (p : List Idx) (i : Idx) (h : UserPath D (p ++ [i])) :
    UserPath D p :=
  h.of_isPrefix (prefix_append p [i])

lemma UserPath.mono {D D' : ℕ} (h : UserPath D p) (hD : D ≤ D') : UserPath D' p :=
  ⟨h.1.trans hD, h.2⟩

/-- The PML4s of the registered spaces. -/
def Vm.roots (s : Vm) : Set ℕ := { r | ∃ e ∈ s.spaces, e.cr3 = r ∧ e.refs ≠ 0 }

/-- The frame at the end of a path. -/
abbrev nodeAt (m : Memory) (r : ℕ) (p : List Idx) : Option ℕ := walk (tableChild m) r p

/-- An allocated frame. -/
structure FrameOk (p : Pmm) (f : ℕ) : Prop where
  ne_zero : f ≠ 0
  aligned : f % 4096 = 0
  tracked : f / 4096 < maxPages
  used : bitTest p (f / 4096) = true

lemma FrameOk.mono {p p' : Pmm} {f : ℕ} (h : FrameOk p f) (hused : bitTest p' (f / 4096) = true) :
    FrameOk p' f :=
  ⟨h.ne_zero, h.aligned, h.tracked, hused⟩

lemma Handed.used {p p' : Pmm} {f i : ℕ} (h : Handed p f p') (hi : bitTest p i = true) :
    bitTest p' i = true := by
  rw [h.bits, hi, Bool.or_true]

lemma Handed.frameOk {p p' : Pmm} {f : ℕ} (h : Handed p f p') (htotal : p.totalPagesCnt = maxPages) :
    FrameOk p' f :=
  ⟨h.ne_zero, h.aligned, lt_of_lt_of_eq h.tracked htotal, by rw [h.bits]; simp⟩

/-- **The invariant.** -/
structure VmOk (D : ℕ) (s : Vm) : Prop where
  count : CountExact s.pmm
  total : s.pmm.totalPagesCnt = maxPages
  zero : bitTest s.pmm 0 = true
  frames : ∀ r ∈ s.roots, ∀ p f, UserPath D p → nodeAt s.mem r p = some f → FrameOk s.pmm f
  unshared : Unshared (tableChild s.mem) s.roots (UserPath D)
  small : ∀ r ∈ s.roots, ∀ p i t, UserPath 3 (p ++ [i]) → nodeAt s.mem r p = some t →
    readEntry s.mem t i &&& vmmFlagHuge = 0

/-- The present entry of the page at index `i` of the page table at the end of `p`. -/
def leafAt (m : Memory) (r : ℕ) (p : List Idx) (i : Idx) : Option ℕ :=
  (nodeAt m r p).bind fun t =>
    if readEntry m t i &&& vmmFlagPresent = 0 then none else some (readEntry m t i)

lemma leafAt_of_none {r : ℕ} (h : nodeAt m r p = none) (i : Idx) : leafAt m r p i = none := by
  rw [leafAt, h]
  rfl

lemma leafAt_of_some {r : ℕ} (h : nodeAt m r p = some t) (i : Idx) : leafAt m r p i =
      if readEntry m t i &&& vmmFlagPresent = 0 then none else some (readEntry m t i) := by
  rw [leafAt, h]
  rfl

lemma nodeAt_snoc {r : ℕ} (h : nodeAt m r p = some t) (i : Idx) :
    nodeAt m r (p ++ [i]) = tableChild m t i := by
  rw [nodeAt] at h ⊢
  rw [walk_snoc, h]
  rfl

/-- `s'` is `s` with the frames `new`, handed out since, linked into the space `r`. -/
structure Extends (D r : ℕ) (new : List ℕ) (s s' : Vm) : Prop where
  ok : VmOk D s'
  spaces : s'.spaces = s.spaces
  kernel : s'.kernelCr3 = s.kernelCr3
  total : s'.pmm.totalPagesCnt = s.pmm.totalPagesCnt
  handed : s'.handed = new ++ s.handed
  clear : ∀ f ∈ new, f % 4096 = 0 ∧ bitTest s.pmm (f / 4096) = false
  used : ∀ i, bitTest s.pmm i = true → bitTest s'.pmm i = true
  fresh : ∀ i, bitTest s'.pmm i = true → bitTest s.pmm i = false →
    ∃ p, UserPath D p ∧ nodeAt s'.mem r p = some (i * 4096)
  keep : ∀ r' ∈ s.roots, ∀ p f, UserPath D p → nodeAt s.mem r' p = some f →
    nodeAt s'.mem r' p = some f
  linked : ∀ r' ∈ s.roots, ∀ p f, UserPath D p → nodeAt s'.mem r' p = some f →
    nodeAt s.mem r' p = some f ∨ (r' = r ∧ f ∈ new)
  mem : ∀ a, s'.mem a ≠ s.mem a → a / 4096 * 4096 ∈ new ∨
    ∃ (p : List Idx) (i : Idx), UserPath D (p ++ [i]) ∧
      nodeAt s.mem r p = some (a / 4096 * 4096) ∧ a % 4096 / 8 = i

/-- `s'` is `s` with fresh tables linked into the space `r`, and no translation changed. -/
structure Grows (D r : ℕ) (new : List ℕ) (s s' : Vm) : Prop extends Extends D r new s s' where
  leaf : ∀ r' ∈ s.roots, ∀ p i, UserPath 3 p → p.length = 3 →
    leafAt s'.mem r' p i = leafAt s.mem r' p i

variable {D r : ℕ} {new new' : List ℕ} {s s' s'' : Vm}

lemma Extends.refl (h : VmOk D s) (r : ℕ) : Extends D r [] s s where
  ok := h
  spaces := rfl
  kernel := rfl
  total := rfl
  handed := rfl
  clear := by simp
  used _ hi := hi
  fresh _ hi hi' := absurd rfl (used_ne_clear hi hi')
  keep _ _ _ _ _ hf := hf
  linked _ _ _ _ _ hf := Or.inl hf
  mem _ ha := absurd rfl ha

lemma Grows.refl (h : VmOk D s) (r : ℕ) : Grows D r [] s s :=
  ⟨Extends.refl h r, fun _ _ _ _ _ _ => rfl⟩

lemma Extends.roots (h : Extends D r new s s') : s'.roots = s.roots := by
  rw [Vm.roots, Vm.roots, h.spaces]

lemma Extends.was_clear (h : Extends D r new s s') {i : ℕ} (hi : bitTest s'.pmm i = false) :
    bitTest s.pmm i = false :=
  Bool.eq_false_iff.mpr fun hset => used_ne_clear (h.used i hset) hi rfl

lemma Extends.trans (hr : r ∈ s.roots) (h : Extends D r new s s') (h' : Extends D r new' s' s'') :
    Extends D r (new' ++ new) s s'' where
  ok := h'.ok
  spaces := h'.spaces.trans h.spaces
  kernel := h'.kernel.trans h.kernel
  total := h'.total.trans h.total
  handed := by rw [h'.handed, h.handed, append_assoc]
  clear f hf := by
    rcases mem_append.mp hf with hf | hf
    · exact ⟨(h'.clear f hf).1, h.was_clear (h'.clear f hf).2⟩
    · exact h.clear f hf
  used i hi := h'.used i (h.used i hi)
  fresh i hi hi' := by
    cases hmid : bitTest s'.pmm i with
    | false => exact h'.fresh i hi hmid
    | true =>
      obtain ⟨p, hp, hf⟩ := h.fresh i hmid hi'
      exact ⟨p, hp, h'.keep r (h.roots ▸ hr) p _ hp hf⟩
  keep r' hr' p f hp hf := h'.keep r' (h.roots ▸ hr') p f hp (h.keep r' hr' p f hp hf)
  linked r' hr' p f hp hf := by
    rcases h'.linked r' (h.roots ▸ hr') p f hp hf with hf' | ⟨hrr, hnew⟩
    · exact (h.linked r' hr' p f hp hf').imp_right
        fun hn => ⟨hn.1, mem_append_right _ hn.2⟩
    · exact Or.inr ⟨hrr, mem_append_left _ hnew⟩
  mem a ha := by
    by_cases hfirst : s'.mem a = s.mem a
    · rw [← hfirst] at ha
      rcases h'.mem a ha with hnew | ⟨p, i, hp, hnode, hi⟩
      · exact Or.inl (mem_append_left _ hnew)
      · rcases h.linked r hr p _ (hp.closed p i) hnode with hold | ⟨_, hnew⟩
        · exact Or.inr ⟨p, i, hp, hold, hi⟩
        · exact Or.inl (mem_append_right _ hnew)
    · exact (h.mem a hfirst).imp_left (mem_append_right _)

lemma Grows.trans (hr : r ∈ s.roots) (h : Grows D r new s s') (h' : Grows D r new' s' s'') :
    Grows D r (new' ++ new) s s'' :=
  ⟨h.toExtends.trans hr h'.toExtends, fun r' hr' p i hp hlen =>
    (h'.leaf r' (h.roots ▸ hr') p i hp hlen).trans (h.leaf r' hr' p i hp hlen)⟩

lemma Extends.mem_used (h : Extends D r new s s') (ha : s'.mem a ≠ s.mem a)
    (hused : bitTest s.pmm (a / 4096) = true) :
    ∃ (p : List Idx) (i : Idx), UserPath D (p ++ [i]) ∧
      nodeAt s.mem r p = some (a / 4096 * 4096) ∧ a % 4096 / 8 = i := by
  refine (h.mem a ha).resolve_left fun hnew => used_ne_clear hused (h.clear _ hnew).2 ?_
  rw [Nat.mul_div_cancel _ (by decide)]

/-! ## Linking a table in -/

lemma VmOk.ne_of_clear (h : VmOk D s) (hclear : bitTest s.pmm (f / 4096) = false) :
    ∀ r ∈ s.roots, ∀ p, UserPath D p → nodeAt s.mem r p ≠ some f := by
  intro r hr p hp hf
  exact used_ne_clear (h.frames r hr p f hp hf).used hclear rfl

/-- The path `q` from `r` leads to `x` now; all other paths of up to `D` entries lead where they led. -/
abbrev NodeSet (D r : ℕ) (q : List Idx) (x : Option ℕ) (s s' : Vm) : Prop :=
  Relinked (tableChild s.mem) (tableChild s'.mem) s.roots (UserPath D) r q x

/-- **Linking a fresh table in** is growth. -/
theorem VmOk.link (h : VmOk D s) (hD : 3 ≤ D) (hr : r ∈ s.roots) {p' : Pmm} (hq : UserPath 3 (q ++ [i]))
    (ht : nodeAt s.mem r q = some t) (hempty : tableChild s.mem t i = none) (hf : Handed s.pmm f p')
    (flags : ℕ)
    (hs' : s' = { s with
      pmm := p'
      mem := writeEntry (fill s.mem f pageSize 0) t i (f ||| tableFlags flags)
      handed := f :: s.handed }) :
    Grows D r [f] s s' ∧ NodeSet D r (q ++ [i]) (some f) s s' := by
  have hmem : s'.mem = writeEntry (fill s.mem f pageSize 0) t i (f ||| tableFlags flags) := by
    rw [hs']
  have hpmm : s'.pmm = p' := by rw [hs']
  have hspaces : s'.spaces = s.spaces := by rw [hs']
  have hkernel : s'.kernelCr3 = s.kernelCr3 := by rw [hs']
  have hhanded : s'.handed = [f] ++ s.handed := by rw [hs']; rfl
  have hroots : s'.roots = s.roots := by rw [Vm.roots, Vm.roots, hspaces]
  clear hs'
  have hqD := hq.mono hD
  have htok := h.frames r hr q t (hqD.closed q i) ht
  have hflt : f < 2 ^ 52 := by
    have := hf.tracked
    have := h.total
    simp only [maxPages, maxPhysBytes, pageSize] at this
    omega
  obtain ⟨hpresent, haddr, hhuge⟩ := tableEntry_spec hf.aligned hflt flags
  have hne_clear : ∀ n, FrameOk s.pmm n → n ≠ f := fun n hn heq =>
    used_ne_clear hn.used hf.clear (by rw [heq])
  have htf : t ≠ f := hne_clear t htok
  -- what the new memory says about old tables, the entry and the new table
  have hold : ∀ n j, FrameOk s.pmm n → (n ≠ t ∨ j ≠ i) →
      readEntry s'.mem n j = readEntry s.mem n j := by
    intro n j hn hne
    have hnf := hne_clear n hn
    have h1 := hn.aligned
    have h2 := hf.aligned
    rw [hmem, readEntry_writeEntry_of_ne htok.aligned h1 hne]
    exact readEntry_congr h1 (fun a ha => fill_outside h2 (by omega)) j
  have hentry : readEntry s'.mem t i = (f ||| tableFlags flags) % 2 ^ 64 := by
    rw [hmem, readEntry_writeEntry]
  have hnew : ∀ j, readEntry s'.mem f j = 0 := by
    intro j
    rw [hmem, readEntry_writeEntry_of_ne htok.aligned hf.aligned (Or.inl htf.symm), readEntry_fill]
  have hlink : tableChild s'.mem t i = some f := by
    rw [tableChild, hentry, if_neg hpresent, haddr]
  have hwalk : NodeSet D r (q ++ [i]) (some f) s s' := by
    rw [NodeSet, ← hlink]
    refine walk_relink UserPath.closed h.unshared hr hqD ht (fun r' hr' p j n hp hn hne => ?_) fun j _ => ?_
    · exact tableChild_congr (hold n j (h.frames r' hr' p n (hp.closed p j) hn) hne)
    · rw [hempty, hlink, Option.bind_some, tableChild, hnew, if_pos (by decide)]
      exact ⟨rfl, rfl⟩
  have hused : ∀ j, bitTest s.pmm j = true → bitTest s'.pmm j = true := fun j hj => hpmm ▸ hf.used hj
  refine ⟨⟨⟨⟨?_, ?_, hused 0 h.zero, ?_, ?_, ?_⟩, hspaces, hkernel, hpmm ▸ hf.total,
    hhanded, ?_, hused, ?_, ?_, ?_, ?_⟩, ?_⟩, hwalk⟩
  · rw [hpmm]
    exact hf.count h.count
  · rw [hpmm, hf.total]
    exact h.total
  · intro r' hr' p n hp hn
    rw [hroots] at hr'
    rcases hwalk.cases hr' hp hn with hn | ⟨_, _, ⟨⟩⟩
    · have hn' := h.frames r' hr' p n hp hn
      exact hn'.mono (hused _ hn'.used)
    · exact hpmm ▸ hf.frameOk h.total
  · rw [hroots]
    exact h.unshared.relink (by rintro _ ⟨⟩; exact h.ne_of_clear hf.clear) hwalk
  · intro r' hr' p j t' hp ht'
    rw [hroots] at hr'
    rcases hwalk.cases hr' ((hp.closed p j).mono hD) ht' with hn | ⟨_, _, ⟨⟩⟩
    · by_cases hsame : t' = t ∧ j = i
      · rw [hsame.1, hsame.2, hentry]
        exact hhuge
      · rw [hold t' j (h.frames r' hr' p t' ((hp.closed p j).mono hD) hn) (not_and_or.mp hsame)]
        exact h.small r' hr' p j t' hp hn
    · rw [hnew]
      decide
  · intro g hg
    rw [mem_singleton.mp hg]
    exact ⟨hf.aligned, hf.clear⟩
  · intro j hj hj'
    have hfj : f / 4096 = j := by
      rw [hpmm, hf.bits, hj', Bool.or_false, decide_eq_true_eq] at hj
      exact hj
    refine ⟨q ++ [i], hqD, ?_⟩
    have := hf.aligned
    rw [nodeAt, (hwalk r hr _ hqD).1 ⟨rfl, rfl⟩, show j * 4096 = f by omega]
  · intro r' hr' p n hp hn
    refine ((hwalk r' hr' p hp).2 ?_).trans hn
    rintro ⟨rfl, rfl⟩
    rw [nodeAt_snoc ht, hempty] at hn
    exact absurd hn (by simp)
  · intro r' hr' p n hp hn
    rcases hwalk.cases hr' hp hn with hn | ⟨hrr, _, ⟨⟩⟩
    · exact Or.inl hn
    · exact Or.inr ⟨hrr, mem_singleton.mpr rfl⟩
  · intro a ha
    have h1 := htok.aligned
    have hi := i.isLt
    by_cases hcell : a < t + 8 * i ∨ t + 8 * i + 8 ≤ a
    · left
      by_contra hout
      refine ha ?_
      rw [hmem, writeEntry_outside hcell]
      refine fill_outside hf.aligned fun haf => hout ?_
      have := hf.aligned
      rw [mem_singleton]
      omega
    · refine Or.inr ⟨q, i, hqD, ?_, by omega⟩
      rw [ht, show a / 4096 * 4096 = t by omega]
  · intro r' hr' p j hp hlen
    by_cases hnewp : r' = r ∧ p = q ++ [i]
    · -- the page table is new: it maps nothing, as its absence did
      have hnone : nodeAt s.mem r' p = none := by
        rw [hnewp.1, hnewp.2, nodeAt_snoc ht, hempty]
      rw [leafAt_of_none hnone, leafAt_of_some ((hwalk r' hr' p (hp.mono hD)).1 hnewp), hnew,
        if_pos (by decide)]
    · have hsame := (hwalk r' hr' p (hp.mono hD)).2 hnewp
      cases hn : nodeAt s.mem r' p with
      | none => rw [leafAt_of_none hn, leafAt_of_none (hsame.trans hn)]
      | some n =>
        -- a page table is not the table that was written: it is one level further down
        have hnt : n ≠ t := by
          rintro rfl
          have := (h.unshared hr' hr (hp.mono hD) (hqD.closed q i) hn ht).2
          have hlen' := hq.1
          rw [← this, length_append, hlen] at hlen'
          simp at hlen'
        rw [leafAt_of_some hn, leafAt_of_some (hsame.trans hn),
          hold n j (h.frames r' hr' p n (hp.mono hD) hn) (Or.inl hnt)]

/-! ## Frames for tables -/

/-- The tables at the paths `Q` of the space `r` have been added, each in a free frame. -/
structure TablesAdded (r : ℕ) (Q : Finset (List Idx)) (s s' : Vm) : Prop where
  free : s'.pmm.freePagesCnt + Q.card = s.pmm.freePagesCnt
  nodes : ∀ r' ∈ s.roots, ∀ p, UserPath 3 p →
    (nodeAt s'.mem r' p = none ↔ nodeAt s.mem r' p = none ∧ ¬ (r' = r ∧ p ∈ Q))

lemma TablesAdded.refl (s : Vm) (r : ℕ) : TablesAdded r ∅ s s :=
  ⟨by simp, fun _ _ _ _ => by simp⟩

lemma TablesAdded.trans {Q Q' : Finset (List Idx)} (h : TablesAdded r Q s s')
    (h' : TablesAdded r Q' s' s'') (hroots : s'.roots = s.roots) (hdisj : Disjoint Q Q') :
    TablesAdded r (Q ∪ Q') s s'' := by
  refine ⟨?_, fun r' hr' p hp => ?_⟩
  · have h1 := h.free
    have h2 := h'.free
    rw [Finset.card_union_of_disjoint hdisj]
    omega
  · rw [h'.nodes r' (hroots ▸ hr') p hp, h.nodes r' hr' p hp, Finset.mem_union]
    tauto

/-- The paths of the tables on the way from `q` along `path`. -/
def tablesOn (q : List Idx) : List Idx → Finset (List Idx)
  | [] => ∅
  | i :: path => insert (q ++ [i]) (tablesOn (q ++ [i]) path)

lemma mem_tablesOn {path q p : List Idx} (h : p ∈ tablesOn q path) :
    q.length < p.length ∧ p <+: q ++ path := by
  induction path generalizing q with
  | nil => simp [tablesOn] at h
  | cons i path ih =>
    have happend : q ++ [i] ++ path = q ++ i :: path := by simp
    rw [tablesOn, Finset.mem_insert] at h
    rcases h with rfl | h
    · exact ⟨by simp, happend ▸ prefix_append _ path⟩
    · obtain ⟨hlen, hpre⟩ := ih h
      rw [length_append, length_singleton] at hlen
      exact ⟨by omega, happend ▸ hpre⟩

/-- Those of them that the space does not have. -/
def missingOn (m : Memory) (r : ℕ) (Q : Finset (List Idx)) : Finset (List Idx) :=
  Q.filter fun p => nodeAt m r p = none

lemma mem_missingOn {m : Memory} {Q : Finset (List Idx)} {p : List Idx} :
    p ∈ missingOn m r Q ↔ p ∈ Q ∧ nodeAt m r p = none := Finset.mem_filter

/-- `ensure_table` links a table in just when it is missing and there is a frame for it. -/
lemma ensureTable_exact (h : VmOk D s) (hD : 3 ≤ D) (hr : r ∈ s.roots) {q : List Idx} {i : Idx}
    {t : ℕ} (hq : UserPath 3 (q ++ [i])) (ht : nodeAt s.mem r q = some t) (flags : ℕ) :
    (∃ t', nodeAt s.mem r (q ++ [i]) = some t' ∧ ensureTable s t i (tableFlags flags) = (some t', s)) ∨
    nodeAt s.mem r (q ++ [i]) = none ∧
      (s.pmm.freePagesCnt = 0 ∧ ensureTable s t i (tableFlags flags) = (none, s) ∨
      ∃ t' s' new, ensureTable s t i (tableFlags flags) = (some t', s') ∧ Grows D r new s s' ∧
        nodeAt s'.mem r (q ++ [i]) = some t' ∧ TablesAdded r {q ++ [i]} s s') := by
  rw [ensureTable, nodeAt_snoc ht]
  cases hchild : tableChild s.mem t i with
  | some t' => exact Or.inl ⟨t', rfl, rfl⟩
  | none =>
    refine Or.inr ⟨rfl, ?_⟩
    rcases s.allocPage_exact h.zero h.count with ⟨hempty, heq⟩ | ⟨f, p', hf, hfree, heq⟩
    · exact Or.inl ⟨hempty, by simp only [allocZeroPage, heq, if_true]⟩
    · obtain ⟨hgrow, hset⟩ := h.link hD hr hq ht hchild hf flags rfl
      refine Or.inr ⟨f, _, [f], by simp only [allocZeroPage, heq, if_neg hf.ne_zero], hgrow,
        (hset r hr _ (hq.mono hD)).1 ⟨rfl, rfl⟩, by simpa using hfree, fun r' hr' p hp => ?_⟩
      rw [Finset.mem_singleton]
      by_cases hnew : r' = r ∧ p = q ++ [i]
      · rw [nodeAt, (hset r' hr' p (hp.mono hD)).1 hnew]
        simp [hnew]
      · rw [nodeAt, (hset r' hr' p (hp.mono hD)).2 hnew]
        simp [hnew]

/-- The calls of `ensure_table` along a path get through just when there are frames for all the tables
that are missing. -/
theorem ensurePath_exact (hD : 3 ≤ D) (flags : ℕ) :
    ∀ (path : List Idx) {s : Vm} {q : List Idx} {t : ℕ}, VmOk D s → r ∈ s.roots →
      UserPath 3 (q ++ path) → nodeAt s.mem r q = some t →
      ((missingOn s.mem r (tablesOn q path)).card ≤ s.pmm.freePagesCnt ∧
        ∃ t' s' new, ensurePath (tableFlags flags) path t s = (some t', s') ∧ Grows D r new s s' ∧
          nodeAt s'.mem r (q ++ path) = some t' ∧
          TablesAdded r (missingOn s.mem r (tablesOn q path)) s s') ∨
      (s.pmm.freePagesCnt < (missingOn s.mem r (tablesOn q path)).card ∧
        ∃ s' new, ensurePath (tableFlags flags) path t s = (none, s') ∧ Grows D r new s s') := by
  intro path
  induction path with
  | nil =>
    intro s q t h _ _ ht
    have hnone : missingOn s.mem r (tablesOn q []) = ∅ := rfl
    rw [hnone]
    exact Or.inl ⟨Nat.zero_le _, t, s, [], rfl, Grows.refl h r, by rwa [append_nil],
      TablesAdded.refl s r⟩
  | cons i path ih =>
    intro s q t h hr hq ht
    have happend : q ++ [i] ++ path = q ++ i :: path := by simp
    have hqi : UserPath 3 (q ++ [i]) :=
      hq.of_isPrefix (happend ▸ prefix_append (q ++ [i]) path)
    have hself : q ++ [i] ∉ tablesOn (q ++ [i]) path := fun hmem =>
      lt_irrefl _ (mem_tablesOn hmem).1
    rcases ensureTable_exact h hD hr hqi ht flags with
      ⟨t1, hnode, heq⟩ | ⟨hnone, ⟨hempty, heq⟩ | ⟨t1, s1, new1, heq, hgrow, hnode, hadds⟩⟩
    · have hskip : missingOn s.mem r (tablesOn q (i :: path)) =
          missingOn s.mem r (tablesOn (q ++ [i]) path) := by
        rw [missingOn, tablesOn, Finset.filter_insert, if_neg (by simp [hnode]), missingOn]
      rw [hskip, ensurePath, heq, ← happend]
      exact ih h hr (happend ▸ hq) hnode
    · refine Or.inr ⟨?_, s, [], by rw [ensurePath, heq], Grows.refl h r⟩
      rw [hempty, Finset.card_pos]
      exact ⟨q ++ [i], mem_missingOn.mpr ⟨Finset.mem_insert_self _ _, hnone⟩⟩
    · -- what is missing further on is missing still
      have hrest : missingOn s1.mem r (tablesOn (q ++ [i]) path) =
          missingOn s.mem r (tablesOn (q ++ [i]) path) := by
        refine Finset.filter_congr fun p hp => ?_
        have hp3 : UserPath 3 p := hq.of_isPrefix (happend ▸ (mem_tablesOn hp).2)
        rw [hadds.nodes r hr p hp3, Finset.mem_singleton]
        refine and_iff_left ?_
        rintro ⟨-, rfl⟩
        exact hself hp
      have hall : missingOn s.mem r (tablesOn q (i :: path)) =
          {q ++ [i]} ∪ missingOn s.mem r (tablesOn (q ++ [i]) path) := by
        rw [missingOn, tablesOn, Finset.filter_insert, if_pos hnone]
        rfl
      have hdisj : Disjoint {q ++ [i]} (missingOn s.mem r (tablesOn (q ++ [i]) path)) := by
        rw [Finset.disjoint_singleton_left]
        exact fun hmem => hself (mem_missingOn.mp hmem).1
      have hcard := Finset.card_union_of_disjoint hdisj
      rw [← hall, Finset.card_singleton] at hcard
      have hfree := hadds.free
      rw [Finset.card_singleton] at hfree
      rcases ih hgrow.ok (hgrow.roots ▸ hr) (happend ▸ hq) hnode with
        ⟨hle, t2, s2, new2, heq2, hgrow2, hnode2, hadds2⟩ | ⟨hlt, s2, new2, heq2, hgrow2⟩
      · rw [hrest] at hle hadds2
        refine Or.inl ⟨by omega, t2, s2, _, by simp only [ensurePath, heq, heq2],
          hgrow.trans hr hgrow2, happend ▸ hnode2, ?_⟩
        rw [hall]
        exact hadds.trans hadds2 hgrow.roots hdisj
      · rw [hrest] at hlt
        exact Or.inr ⟨by omega, s2, _, by simp only [ensurePath, heq, heq2], hgrow.trans hr hgrow2⟩

/-! ## Writing a page's entry -/

section

variable (h : VmOk D s) (hD : 3 ≤ D) (hr : r ∈ s.roots) (hq : UserPath 3 q) (hlen : q.length = 3)
  (ht : nodeAt s.mem r q = some t) (e : ℕ)
include h hD hr hq hlen ht e

/-- The entries of page tables are not part of the tables' own structure: writing one changes that
page and nothing else. -/
theorem VmOk.writeLeaf :
    (∀ r' ∈ s.roots, ∀ p, UserPath 3 p →
      nodeAt (writeEntry s.mem t i e) r' p = nodeAt s.mem r' p) ∧
    (∀ r' ∈ s.roots, ∀ p j t', UserPath D p → nodeAt s.mem r' p = some t' →
      ¬ (r' = r ∧ p = q ∧ j = i) →
        readEntry (writeEntry s.mem t i e) t' j = readEntry s.mem t' j) := by
  have htok := h.frames r hr q t (hq.mono hD) ht
  have hold : ∀ r' ∈ s.roots, ∀ p j t', UserPath D p → nodeAt s.mem r' p = some t' →
      ¬ (r' = r ∧ p = q ∧ j = i) →
        readEntry (writeEntry s.mem t i e) t' j = readEntry s.mem t' j := by
    intro r' hr' p j t' hp ht' hne
    refine readEntry_writeEntry_of_ne htok.aligned (h.frames r' hr' p t' hp ht').aligned ?_
    by_contra hsame
    rw [not_or, not_not, not_not] at hsame
    obtain ⟨rfl, rfl⟩ := hsame
    obtain ⟨hrr, hpq⟩ := h.unshared hr' hr hp (hq.mono hD) ht' ht
    exact hne ⟨hrr, hpq, rfl⟩
  refine ⟨fun r' hr' p hp => walk_congr fun p0 j hpre n hn => ?_, hold⟩
  -- the tables on the path end before the page table's own entries
  have hlen0 : p0.length < 3 := by
    have := hpre.length_le
    rw [length_append, length_singleton] at this
    have := hp.1
    omega
  have hp0 : UserPath 3 p0 := (hp.of_isPrefix hpre).closed p0 j
  refine tableChild_congr (hold r' hr' p0 j n (hp0.mono hD) hn ?_)
  rintro ⟨_, rfl, _⟩
  omega

/-- With the page's entry written, the page reads as the entry and every other page as before. -/
theorem VmOk.leafAt_writeLeaf : leafAt (writeEntry s.mem t i e) r q i =
      (if e % 2 ^ 64 &&& vmmFlagPresent = 0 then none else some (e % 2 ^ 64)) ∧
    ∀ r' ∈ s.roots, ∀ p j, UserPath 3 p → ¬ (r' = r ∧ p = q ∧ j = i) →
      leafAt (writeEntry s.mem t i e) r' p j = leafAt s.mem r' p j := by
  obtain ⟨hnodes, hold⟩ := h.writeLeaf hD hr (i := i) hq hlen ht e
  refine ⟨?_, fun r' hr' p j hp hne => ?_⟩
  · rw [leafAt_of_some ((hnodes r hr q hq).trans ht), readEntry_writeEntry]
  · cases hn : nodeAt s.mem r' p with
    | none => rw [leafAt_of_none hn, leafAt_of_none ((hnodes r' hr' p hp).trans hn)]
    | some n =>
      rw [leafAt_of_some hn, leafAt_of_some ((hnodes r' hr' p hp).trans hn),
        hold r' hr' p j n (hp.mono hD) hn hne]

end

/-! ## Virtual addresses -/

/-- The indices of the three table levels. -/
def tablePath (v : ℕ) : List Idx := [l4 v, l3 v, l2 v]

/-- The 36-bit page number of an address. -/
def pageNum (v : ℕ) : ℕ := v / 4096 % 2 ^ 36

/-- The present entry of the page of `v`. -/
def pte (m : Memory) (r v : ℕ) : Option ℕ := leafAt m r (tablePath v) (l1 v)

lemma userPath_tablePath (hv : l4 v ≠ 0) : UserPath 3 (tablePath v) :=
  ⟨le_refl 3, fun h => hv (Option.some.inj h)⟩

lemma tablePath_length (v : ℕ) : (tablePath v).length = 3 := rfl

/-- Two addresses are translated by the same entry if they lie on the same page. -/
lemma tablePath_eq_iff (v w : ℕ) :
    tablePath v = tablePath w ∧ l1 v = l1 w ↔ pageNum v = pageNum w := by
  simp only [tablePath, cons.injEq, and_true, l4, l3, l2, l1, Fin.ext_iff, Fin.val_ofNat, pageNum]
  omega

lemma l4_eq_of_pageNum {w : ℕ} (h : pageNum v = pageNum w) : l4 v = l4 w := by
  have := ((tablePath_eq_iff v w).mpr h).1
  simp only [tablePath, cons.injEq] at this
  exact this.1

lemma nodeAt_tablePath (m : Memory) (r v : ℕ) :
    nodeAt m r (tablePath v) = (tableChild m r (l4 v)).bind fun pdpt =>
      (tableChild m pdpt (l3 v)).bind fun pd => tableChild m pd (l2 v) := by
  simp only [nodeAt, tablePath, walk_cons, walk_nil, Option.bind_fun_some]

lemma FrameOk.pml4FromCr3 {p : Pmm} (h : FrameOk p r) : MyOs.pml4FromCr3 r = r := by
  have := h.tracked
  simp only [maxPages, maxPhysBytes, pageSize] at this
  exact pml4FromCr3_of_aligned h.aligned (by omega)

lemma VmOk.root_eq (h : VmOk D s) (hr : r ∈ s.roots) : FrameOk s.pmm r ∧ pml4FromCr3 r = r := by
  have hok := h.frames r hr [] r ⟨Nat.zero_le _, by simp⟩ rfl
  exact ⟨hok, hok.pml4FromCr3⟩

/-- The tables that lead to the page of `v`. -/
def tablesOf (v : ℕ) : Finset (List Idx) := tablesOn [] (tablePath v)

/-- A page can be mapped: it is not, and there are frames for the tables it needs. -/
def PageFree (s : Vm) (r v : ℕ) : Prop :=
  pte s.mem r v = none ∧ (missingOn s.mem r (tablesOf v)).card ≤ s.pmm.freePagesCnt

/-- **What `map_page_inner` can do**: add tables and fail, or add tables and write the entry of a
page that was not mapped. -/
theorem mapPageInner_spec (h : VmOk D s) (hD : 3 ≤ D) (hr : r ∈ s.roots) (hv : l4 v ≠ 0)
    (phys flags : ℕ) :
    ∃ s1 new, Grows D r new s s1 ∧
      (¬ PageFree s r v ∧ mapPageInner s r v phys flags = (false, s1) ∨
        PageFree s r v ∧ TablesAdded r (missingOn s.mem r (tablesOf v)) s s1 ∧
          ∃ pt, nodeAt s1.mem r (tablePath v) = some pt ∧
            mapPageInner s r v phys flags = (true, { s1 with
              mem := writeEntry s1.mem pt (l1 v)
                ((phys &&& vmmAddrMask) ||| (flags ||| vmmFlagPresent)) })) := by
  simp only [mapPageInner, (h.root_eq hr).2, show [l4 v, l3 v, l2 v] = tablePath v from rfl]
  rcases ensurePath_exact hD flags (tablePath v) (q := []) h hr (userPath_tablePath hv) rfl with
    ⟨hle, pt, s1, new, heq, hgrow, hpt, hadds⟩ | ⟨hlt, s1, new, heq, hgrow⟩
  · rw [nil_append] at hpt
    have hleaf : pte s1.mem r v = pte s.mem r v :=
      hgrow.leaf r hr _ _ (userPath_tablePath hv) (tablePath_length v)
    rw [pte, leafAt_of_some hpt] at hleaf
    rw [heq]
    refine ⟨s1, new, hgrow, ?_⟩
    by_cases hpresent : readEntry s1.mem pt (l1 v) &&& vmmFlagPresent = 0
    · rw [if_pos hpresent] at hleaf
      exact Or.inr ⟨⟨hleaf.symm, hle⟩, hadds, pt, hpt, if_pos hpresent⟩
    · refine Or.inl ⟨fun hfree => ?_, if_neg hpresent⟩
      rw [if_neg hpresent, hfree.1] at hleaf
      cases hleaf
  · rw [heq]
    exact ⟨s1, new, hgrow, Or.inl ⟨fun hfree => absurd hfree.2 (not_le.mpr hlt), rfl⟩⟩

/-- **What `vmm_unmap_page` does**: nothing if the page is not mapped, else its entry is cleared. -/
theorem vmmUnmapPage_spec (h : VmOk D s) (hr : r ∈ s.roots) (v : ℕ) :
    (pte s.mem r v = none ∧ vmmUnmapPage s r v = (0, s)) ∨
    ∃ pt e, nodeAt s.mem r (tablePath v) = some pt ∧ pte s.mem r v = some e ∧
      vmmUnmapPage s r v =
        (e &&& vmmAddrMask, { s with mem := writeEntry s.mem pt (l1 v) 0 }) := by
  simp only [vmmUnmapPage, (h.root_eq hr).2, show [l4 v, l3 v, l2 v] = tablePath v from rfl]
  cases hpt : walk (tableChild s.mem) r (tablePath v) with
  | none => exact Or.inl ⟨leafAt_of_none hpt _, rfl⟩
  | some pt =>
    by_cases hpresent : readEntry s.mem pt (l1 v) &&& vmmFlagPresent = 0
    · exact Or.inl ⟨by rw [pte, leafAt_of_some hpt, if_pos hpresent], if_pos hpresent⟩
    · exact Or.inr ⟨pt, readEntry s.mem pt (l1 v), hpt,
        by rw [pte, leafAt_of_some hpt, if_neg hpresent], if_neg hpresent⟩

/-- **`vmm_resolve` reads the page's entry**: no huge entry is on the way. -/
theorem vmmResolve_eq (h : VmOk D s) (hr : r ∈ s.roots) (hv : l4 v ≠ 0) : vmmResolve s.mem r v =
      (pte s.mem r v).map fun e => ((e &&& vmmAddrMask) ||| (v &&& 0xFFF), e) := by
  have hpath := userPath_tablePath hv
  have hpath' : UserPath 3 ([l4 v] ++ [l3 v]) :=
    hpath.of_isPrefix (prefix_append [l4 v, l3 v] [l2 v])
  have hnode := nodeAt_tablePath s.mem r v
  simp only [vmmResolve, (h.root_eq hr).2]
  by_cases h4 : readEntry s.mem r (l4 v) &&& vmmFlagPresent = 0
  · rw [tableChild_of_absent h4] at hnode
    rw [if_pos h4, pte, leafAt_of_none hnode]
    rfl
  have hpdpt := tableChild_of_present h4
  have hn1 : nodeAt s.mem r [l4 v] = some (readEntry s.mem r (l4 v) &&& vmmAddrMask) :=
    (nodeAt_snoc (p := []) rfl (l4 v)).trans hpdpt
  rw [hpdpt, Option.bind_some] at hnode
  rw [if_neg h4]
  generalize readEntry s.mem r (l4 v) &&& vmmAddrMask = pdpt at hn1 hnode ⊢
  have hsmall1 := h.small r hr [l4 v] (l3 v) pdpt hpath' hn1
  by_cases h3 : readEntry s.mem pdpt (l3 v) &&& vmmFlagPresent = 0
  · rw [tableChild_of_absent h3] at hnode
    rw [if_pos h3, pte, leafAt_of_none hnode]
    rfl
  have hpd := tableChild_of_present h3
  have hn2 : nodeAt s.mem r [l4 v, l3 v] = some (readEntry s.mem pdpt (l3 v) &&& vmmAddrMask) :=
    (nodeAt_snoc hn1 (l3 v)).trans hpd
  rw [hpd, Option.bind_some] at hnode
  rw [if_neg h3, if_neg (not_not.mpr hsmall1)]
  generalize readEntry s.mem pdpt (l3 v) &&& vmmAddrMask = pd at hn2 hnode ⊢
  have hsmall2 := h.small r hr [l4 v, l3 v] (l2 v) pd hpath hn2
  by_cases h2 : readEntry s.mem pd (l2 v) &&& vmmFlagPresent = 0
  · rw [tableChild_of_absent h2] at hnode
    rw [if_pos h2, pte, leafAt_of_none hnode]
    rfl
  rw [tableChild_of_present h2] at hnode
  rw [if_neg h2, if_neg (not_not.mpr hsmall2), pte, leafAt_of_some hnode]
  split_ifs <;> rfl

end MyOs
