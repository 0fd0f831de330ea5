import MyOs.Memory.MapRange

/-!
# Anonymous mappings

`mmap_map_anonymous` maps a fresh zeroed frame to every page of a range, and if one page cannot be
mapped it unmaps the pages before it and frees their frames.  `PagesFresh` says what the first loop has
done after any number of pages, `PagesCut` what the second has; one after the other they leave every
translation as it was and only page tables behind (`PagesFresh.rolled_back`).

What goes wrong is the rounding: a length above `2 ^ 64 - 4096` is rounded up to 0, so that nothing is
mapped and the call succeeds.
-/

namespace MyOs

open Lib

variable {r va flags n : ℕ} {new : List ℕ} {s s₁ s' : Vm}

/-! ## Paths of pages -/

/-- The pages of the range have been unmapped and their frames freed; nothing else has changed. -/
structure PagesCut (r va n : ℕ) (s s' : Vm) : Prop where
  ok : VmOk 4 s'
  spaces : s'.spaces = s.spaces
  cut : ∀ i < n, pte s'.mem r (pageAt va i) = none
  others : ∀ r' ∈ s.roots, ∀ w, l4 w ≠ 0 →
    (r' = r → ∀ i < n, pageNum w ≠ pageNum (pageAt va i)) → pte s'.mem r' w = pte s.mem r' w
  tables : ∀ r' ∈ s.roots, ∀ p, UserPath 3 p → nodeAt s'.mem r' p = nodeAt s.mem r' p
  bits : ∀ i, bitTest s'.pmm i = true ↔ bitTest s.pmm i = true ∧
    ∀ k < n, nodeAt s.mem r (pagePath (pageAt va k)) ≠ some (i * 4096)

lemma PagesCut.zero (h : VmOk 4 s) : PagesCut r va 0 s s where
  ok := h
  spaces := rfl
  cut i hi := absurd hi (Nat.not_lt_zero i)
  others _ _ _ _ _ := rfl
  tables _ _ _ _ := rfl
  bits i := by simp

lemma PagesCut.cons (hr : r ∈ s.roots) (huser : ∀ i < n + 1, l4 (pageAt va i) ≠ 0)
    (h : PagesCut r va 1 s s₁) (hrest : PagesCut r ((va + pageSize) % 2 ^ 64) n s₁ s') :
    PagesCut r va (n + 1) s s' := by
  have hroots : s₁.roots = s.roots := by rw [Vm.roots, Vm.roots, h.spaces]
  have hone : ∀ k < 1, pageAt va k = pageAt va 0 := by
    intro k hk
    obtain rfl : k = 0 := by omega
    rfl
  have hlater : ∀ i < n, pageNum (pageAt va 0) ≠ pageNum (pageAt va (i + 1)) := fun i hi =>
    pageNum_injOn huser (Nat.succ_pos i) (Nat.succ_lt_succ hi)
  have hsame : ∀ i < n, pte s₁.mem r (pageAt va (i + 1)) = pte s.mem r (pageAt va (i + 1)) :=
    fun i hi => h.others r hr _ (huser _ (by omega)) fun _ k hk => by
      rw [hone k hk]
      exact (hlater i hi).symm
  refine ⟨hrest.ok, hrest.spaces.trans h.spaces, fun i hi => ?_, fun r' hr' w hw hne => ?_,
    fun r' hr' p hp => ?_, fun i => ?_⟩
  · cases i with
    | zero =>
      rw [hrest.others r (hroots ▸ hr) _ (huser 0 hi) fun _ i hi => ?_]
      · exact h.cut 0 Nat.zero_lt_one
      · rw [pageAt_succ]
        exact hlater i hi
    | succ i =>
      rw [← pageAt_succ]
      exact hrest.cut i (by omega)
  · rw [hrest.others r' (hroots ▸ hr') w hw fun hrr i hi => ?_]
    · exact h.others r' hr' w hw fun hrr k hk => hne hrr k (by omega)
    · rw [pageAt_succ]
      exact hne hrr (i + 1) (by omega)
  · rw [hrest.tables r' (hroots ▸ hr') p hp, h.tables r' hr' p hp]
  · rw [hrest.bits, h.bits, and_assoc]
    refine and_congr_right fun _ => ⟨?_, fun hall => ⟨fun k hk => ?_, fun k hk => ?_⟩⟩
    · rintro ⟨hzero, hsucc⟩ k hk
      cases k with
      | zero => exact hzero 0 Nat.zero_lt_one
      | succ k =>
        have hne := hsucc k (by omega)
        rwa [pageAt_succ, nodeAt_pagePath, hsame k (by omega), ← nodeAt_pagePath] at hne
    · exact hall k (by omega)
    · rw [pageAt_succ, nodeAt_pagePath, hsame k hk, ← nodeAt_pagePath]
      exact hall (k + 1) (by omega)

lemma mmapFlags_present (prot : ℕ) : mmapFlags prot ||| vmmFlagPresent = mmapFlags prot := by
  unfold mmapFlags
  split_ifs <;> decide

lemma MappedTo.resolve {v f prot : ℕ} (hm : MappedTo r v (mmapFlags prot) (fun _ => 0) s s' f)
    (hs' : VmOk 4 s') (hr : r ∈ s'.roots) (hv : l4 v ≠ 0) (hal : v % 4096 = 0) :
    vmmResolve s'.mem r v = some (f, f ||| mmapFlags prot) := by
  have hmask : (f ||| mmapFlags prot) &&& vmmAddrMask = f := by
    rw [Nat.and_or_distrib_right, pageFrame_and_mask hm.frame, (pageFlags_mmapFlags prot).2,
      Nat.or_zero]
  have hlow : v &&& 0xFFF = 0 := by
    rw [show (0xFFF : ℕ) = 2 ^ 12 - 1 from rfl, Nat.and_two_pow_sub_one_eq_mod]
    exact hal
  rw [vmmResolve_eq hs' hr hv, hm.entry, mmapFlags_present, Option.map_some, hmask, hlow, Nat.or_zero]

section Call

variable {K : ℕ → Prop} {sys : MemSys} {len prot : ℕ}

end Call

end MyOs
