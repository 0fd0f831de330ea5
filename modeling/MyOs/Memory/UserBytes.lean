import MyOs.Memory.FreshPages

/-!
# The bytes of a user space

What a space holds, read through its page tables: `byteAt` is the byte at a virtual address.  Frames
of mapped pages are not tables and not shared, so storing into one changes the bytes of that page
and nothing else (`Extends.writeFrame`, `VmOk.byteAt_overlay`).
-/

namespace MyOs

open Lib

variable {r v f : ℕ} {new : List ℕ} {s s₁ s' : Vm} {m : Memory}

/-- The path of the frame a page is mapped to. -/
abbrev pagePath (v : ℕ) : List Idx := tablePath v ++ [l1 v]

lemma userPath_pagePath (hv : l4 v ≠ 0) : UserPath 4 (pagePath v) :=
  (userPath_tablePath hv).snoc (tablePath_length v) (l1 v)

lemma pagePath_inj {v w : ℕ} : pagePath v = pagePath w ↔ pageNum v = pageNum w := by
  rw [← tablePath_eq_iff]
  simp [pagePath, tablePath, and_assoc]

lemma nodeAt_pagePath (m : Memory) (r v : ℕ) :
    nodeAt m r (pagePath v) = (pte m r v).map (· &&& vmmAddrMask) := by
  rw [nodeAt, pagePath, walk_snoc, pte, leafAt, nodeAt]
  cases walk (tableChild m) r (tablePath v) with
  | none => rfl
  | some t =>
    rw [Option.bind_some, Option.bind_some, tableChild]
    split <;> rfl

/-- The byte at a virtual address. -/
def byteAt (s : Vm) (r v : ℕ) : Option UInt8 := (vmmResolve s.mem r v).map fun (pa, _) => s.mem pa

lemma VmOk.resolve_fst (h : VmOk 4 s) (hr : r ∈ s.roots) (hv : l4 v ≠ 0) :
    (vmmResolve s.mem r v).map Prod.fst =
      (nodeAt s.mem r (pagePath v)).map (· + v % 4096) := by
  have hframe := fun f => h.frames r hr _ f (userPath_pagePath hv)
  rw [vmmResolve_eq h hr hv]
  rw [nodeAt_pagePath] at hframe ⊢
  cases hpte : pte s.mem r v with
  | none => rfl
  | some e =>
    have hal := (hframe _ (by rw [hpte, Option.map_some])).aligned
    simp only [Option.map_some, Option.some.injEq]
    rw [show v &&& 0xFFF = v % 2 ^ 12 from Nat.and_two_pow_sub_one_eq_mod v 12,
      show e &&& vmmAddrMask = (e &&& vmmAddrMask) / 4096 * 2 ^ 12 by omega,
      or_eq_add_of_lt _ (Nat.mod_lt _ (by decide))]
    omega

lemma VmOk.resolve_frame (h : VmOk 4 s) (hr : r ∈ s.roots) (hv : l4 v ≠ 0) {pa e : ℕ}
    (hres : vmmResolve s.mem r v = some (pa, e)) :
    ∃ f, nodeAt s.mem r (pagePath v) = some f ∧ FrameOk s.pmm f ∧ pa = f + v % 4096 := by
  have hfst := h.resolve_fst hr hv
  rw [hres, Option.map_some, eq_comm, Option.map_eq_some_iff] at hfst
  obtain ⟨f, hnode, rfl⟩ := hfst
  exact ⟨f, hnode, h.frames r hr _ f (userPath_pagePath hv) hnode, rfl⟩

lemma VmOk.byteAt_eq (h : VmOk 4 s) (hr : r ∈ s.roots) (hv : l4 v ≠ 0) :
    byteAt s r v = (nodeAt s.mem r (pagePath v)).map fun f => s.mem (f + v % 4096) := by
  have hfst := congrArg (Option.map s.mem) (h.resolve_fst hr hv)
  rw [Option.map_map, Option.map_map] at hfst
  exact hfst

/-! ## Storing into the frame of a page -/

lemma VmOk.sameTables_writePages (h : VmOk 4 s) (hr : r ∈ s.roots) (hs' : s' = { s with mem := m })
    (hm : ∀ a, m a ≠ s.mem a →
      ∃ v, l4 v ≠ 0 ∧ nodeAt s.mem r (pagePath v) = some (a / 4096 * 4096)) : SameTables s s' := by
  refine h.sameTables (by decide) fun r' hr' p t hp ht a ha => ?_
  rw [hs']
  by_contra hne
  obtain ⟨v, hv, hnode⟩ := hm a hne
  have hal := (h.frames r' hr' p t (hp.mono (by decide)) ht).aligned
  have htf : t = a / 4096 * 4096 := by omega
  obtain ⟨_, hpath⟩ := h.unshared hr hr' (userPath_pagePath hv) (hp.mono (by decide)) hnode (htf ▸ ht)
  have := hp.1
  rw [← hpath, List.length_append, tablePath_length, List.length_singleton] at this
  omega

/-- The tables of a space, and what its pages are mapped to, are as before. -/
structure TablesKept (r : ℕ) (s s' : Vm) : Prop where
  ok : VmOk 4 s'
  spaces : s'.spaces = s.spaces
  node : ∀ p, UserPath 4 p → nodeAt s'.mem r p = nodeAt s.mem r p

lemma TablesKept.refl (h : VmOk 4 s) (r : ℕ) : TablesKept r s s := ⟨h, rfl, fun _ _ => rfl⟩

lemma TablesKept.trans {s'' : Vm} (h : TablesKept r s s') (h' : TablesKept r s' s'') :
    TablesKept r s s'' :=
  ⟨h'.ok, h'.spaces.trans h.spaces, fun p hp => (h'.node p hp).trans (h.node p hp)⟩

lemma TablesKept.roots (h : TablesKept r s s') : s'.roots = s.roots := by
  rw [Vm.roots, Vm.roots, h.spaces]

/-- **Storing into the pages of a space** keeps the tables of all spaces. -/
theorem VmOk.writePages (h : VmOk 4 s) (hr : r ∈ s.roots) (hs' : s' = { s with mem := m })
    (hm : ∀ a, m a ≠ s.mem a →
      ∃ v, l4 v ≠ 0 ∧ nodeAt s.mem r (pagePath v) = some (a / 4096 * 4096)) : TablesKept r s s' := by
  have hsame := h.sameTables_writePages hr hs' hm
  subst hs'
  refine ⟨?_, rfl, fun p hp => nodeAt_of_agree (hsame r hr) hp⟩
  exact h.of_sameTables (by decide) (le_refl 4) hsame subset_rfl h.count h.total h.zero
    fun r hr p f hp hf => (h.frames r hr p f hp hf).used

section

variable (h : VmOk 4 s) (hr : r ∈ s.roots) (hv : l4 v ≠ 0)
  (hnode : nodeAt s.mem r (pagePath v) = some f)
include h hr hv hnode

lemma VmOk.page_of_ne (hm : ∀ a, a / 4096 ≠ f / 4096 → m a = s.mem a) (a : ℕ) (hne : m a ≠ s.mem a) :
    ∃ v, l4 v ≠ 0 ∧ nodeAt s.mem r (pagePath v) = some (a / 4096 * 4096) := by
  have hal := (h.frames r hr _ f (userPath_pagePath hv) hnode).aligned
  have haf : a / 4096 = f / 4096 := not_not.mp fun hne' => hne (hm a hne')
  exact ⟨v, hv, by rw [hnode, show a / 4096 * 4096 = f by omega]⟩

lemma VmOk.sameTables_writeFrame (hs' : s' = { s with mem := m })
    (hm : ∀ a, a / 4096 ≠ f / 4096 → m a = s.mem a) : SameTables s s' :=
  h.sameTables_writePages hr hs' (h.page_of_ne hr hv hnode hm)

lemma VmOk.writeFrame (hs' : s' = { s with mem := m }) (hm : ∀ a, a / 4096 ≠ f / 4096 → m a = s.mem a) :
    VmOk 4 s' :=
  (h.writePages hr hs' (h.page_of_ne hr hv hnode hm)).ok

end

lemma Extends.writeFrame (he : Extends 4 r new s s₁) (hr : r ∈ s.roots) (hv : l4 v ≠ 0)
    (hnode : nodeAt s₁.mem r (pagePath v) = some f) (hnew : f ∈ new)
    (hs' : s' = { s₁ with mem := m }) (hm : ∀ a, a / 4096 ≠ f / 4096 → m a = s₁.mem a) :
    Extends 4 r new s s' := by
  have hr1 : r ∈ s₁.roots := he.roots ▸ hr
  have hsame := he.ok.sameTables_writeFrame hr1 hv hnode hs' hm
  have hok := he.ok.writeFrame hr1 hv hnode hs' hm
  have hnodes : ∀ r' ∈ s.roots, ∀ p, UserPath 4 p → nodeAt s'.mem r' p = nodeAt s₁.mem r' p :=
    fun r' hr' p hp => nodeAt_of_agree (hsame r' (he.roots ▸ hr')) hp
  have hal := (he.clear f hnew).1
  subst hs'
  refine ⟨hok, he.spaces, he.kernel, he.total, he.handed, he.clear, he.used, fun i hi hclear => ?_,
    fun r' hr' p f hp hf => (hnodes r' hr' p hp).trans (he.keep r' hr' p f hp hf),
    fun r' hr' p f hp hf => he.linked r' hr' p f hp ((hnodes r' hr' p hp).symm.trans hf),
    fun a ha => ?_⟩
  · obtain ⟨p, hp, hn⟩ := he.fresh i hi hclear
    exact ⟨p, hp, (hnodes r hr p hp).trans hn⟩
  · by_cases haf : a / 4096 = f / 4096
    · left
      rwa [haf, show f / 4096 * 4096 = f by omega]
    · exact he.mem a fun heq => ha ((hm a haf).trans heq)

/-! ## What happens to the bytes -/

lemma pte_congr (m : Memory) (r : ℕ) {v w : ℕ} (h : pageNum v = pageNum w) :
    pte m r v = pte m r w := by
  obtain ⟨hpath, hl1⟩ := (tablePath_eq_iff v w).mpr h
  rw [pte, pte, hpath, hl1]

lemma VmOk.byteAt_eq_none (h : VmOk 4 s) (hr : r ∈ s.roots) (hv : l4 v ≠ 0) :
    byteAt s r v = none ↔ pte s.mem r v = none := by
  rw [h.byteAt_eq hr hv, nodeAt_pagePath, Option.map_eq_none_iff, Option.map_eq_none_iff]

/-- **Storing into the frame of a page** changes the bytes stored and no other byte. -/
theorem VmOk.byteAt_overlay (h : VmOk 4 s) (hr : r ∈ s.roots) (hv : l4 v ≠ 0)
    (hnode : nodeAt s.mem r (pagePath v) = some f) {n : ℕ} (hn : n ≤ 4096) {src : ℕ → UInt8}
    (hs' : s' = { s with mem := overlay s.mem f n src }) {w : ℕ} (hw : l4 w ≠ 0) :
    byteAt s' r w =
      if pageNum w = pageNum v ∧ w % 4096 < n then some (src (w % 4096)) else byteAt s r w := by
  have hal := (h.frames r hr _ f (userPath_pagePath hv) hnode).aligned
  have hm : ∀ a, a / 4096 ≠ f / 4096 → overlay s.mem f n src a = s.mem a :=
    fun a ha => overlay_outside (by omega)
  have hok := h.writeFrame hr hv hnode hs' hm
  have hnodes := nodeAt_of_agree ((h.sameTables_writeFrame hr hv hnode hs' hm) r hr)
    (userPath_pagePath hw)
  subst hs'
  rw [hok.byteAt_eq hr hw, h.byteAt_eq hr hw, hnodes]
  by_cases hpage : pageNum w = pageNum v
  · rw [pagePath_inj.mpr hpage, hnode, Option.map_some, Option.map_some]
    by_cases hlt : w % 4096 < n
    · rw [if_pos ⟨hpage, hlt⟩]
      show some (overlay s.mem f n src (f + w % 4096)) = _
      rw [overlay_inside (by omega) (by omega), Nat.add_sub_cancel_left]
    · rw [if_neg fun hand => hlt hand.2]
      show some (overlay s.mem f n src (f + w % 4096)) = _
      rw [overlay_outside (by omega)]
  · rw [if_neg fun hand => hpage hand.1]
    cases hg : nodeAt s.mem r (pagePath w) with
    | none => rfl
    | some g =>
      have halg := (h.frames r hr _ g (userPath_pagePath hw) hg).aligned
      have hne : g ≠ f := by
        rintro rfl
        exact hpage (pagePath_inj.mp
          (h.unshared hr hr (userPath_pagePath hw) (userPath_pagePath hv) hg hnode).2)
      rw [Option.map_some, Option.map_some]
      exact congrArg some (hm _ (by omega))

lemma Extends.frame_keep (he : Extends 4 r new s s') (h : VmOk 4 s) (hr : r ∈ s.roots)
    (hv : l4 v ≠ 0) (hnode : nodeAt s.mem r (pagePath v) = some f) {x : ℕ} (hx : x < 4096) :
    s'.mem (f + x) = s.mem (f + x) := by
  have hframe := h.frames r hr _ f (userPath_pagePath hv) hnode
  have hal := hframe.aligned
  by_contra hne
  have hpage : (f + x) / 4096 * 4096 = f := by omega
  rcases he.mem _ hne with hnew | ⟨p, i, hp, ht, _⟩
  · rw [hpage] at hnew
    exact used_ne_clear hframe.used (he.clear f hnew).2 rfl
  · -- the frame of a page is not a table
    rw [hpage] at ht
    obtain ⟨_, hpath⟩ := h.unshared hr hr (userPath_pagePath hv) hp.closed hnode ht
    have hlen := hp.table.1
    rw [← hpath, List.length_append, tablePath_length, List.length_singleton] at hlen
    omega

lemma Extends.byteAt_keep (he : Extends 4 r new s s') (h : VmOk 4 s) (hr : r ∈ s.roots)
    (hv : l4 v ≠ 0) (hsome : byteAt s r v ≠ none) : byteAt s' r v = byteAt s r v := by
  rw [h.byteAt_eq hr hv] at hsome
  rw [he.ok.byteAt_eq (he.roots ▸ hr) hv, h.byteAt_eq hr hv]
  cases hnode : nodeAt s.mem r (pagePath v) with
  | none =>
    rw [hnode] at hsome
    exact absurd rfl hsome
  | some f =>
    rw [he.keep r hr _ f (userPath_pagePath hv) hnode, Option.map_some, Option.map_some,
      he.frame_keep h hr hv hnode (Nat.mod_lt v (by decide))]

end MyOs
