import MyOs.Memory.FreshPages

/-!
# Frames are conserved

`vmm_destroy_user_space` frees a space by a recursion over its tables.  `freeTable_spec` says what
one level does, given what the level below does: exactly the frames listed by `reach` are freed, in
that order, and only tables in the list are written.  Since a space owns its frames (`VmOk 4`), the
list has no duplicates.

`vmm_space_life_conserves_frames` puts the life of a space together: after it is created, used and
released, the allocator is what it was, and no frame that was in use before has changed.
-/

namespace MyOs

open Lib List

variable {r : ℕ} {s s' : Vm}
variable {i : Idx} {m : Memory} {c d f t : ℕ} {idx : List Idx} {free freeEntry : ℕ → Vm → Vm}
  {spaces : List UserSpace}

lemma mem_allIdx (i : Idx) : i ∈ allIdx := by
  unfold allIdx
  exact mem_finRange i

lemma nodup_allIdx : allIdx.Nodup := by
  unfold allIdx
  exact nodup_finRange 512

lemma nodup_userIdx : userIdx.Nodup := by
  unfold userIdx
  exact (nodup_finRange 512).tail

lemma mem_userIdx : i ∈ userIdx ↔ i ≠ 0 := by
  have hcons : finRange 512 = 0 :: userIdx := by
    unfold userIdx
    rw [finRange_succ, tail_cons]
  have hnodup : (0 :: userIdx).Nodup := hcons ▸ nodup_finRange 512
  have hmem : i ∈ 0 :: userIdx := hcons ▸ mem_finRange i
  rw [mem_cons] at hmem
  exact ⟨fun h h0 => (nodup_cons.mp hnodup).1 (h0 ▸ h), fun h => hmem.resolve_left h⟩

/-- The frames at most `d` entries below a table. -/
abbrev framesBelow (m : Memory) (d t : ℕ) : List ℕ := reach (tableChild m) allIdx d t

/-- `pmm_free_pages` of each frame of a list. -/
def freeAll (p : Pmm) (frames : List ℕ) : Pmm := frames.foldl (fun p f => pmmFreePages p f 1) p

lemma freeAll_append (p : Pmm) (l l' : List ℕ) :
    freeAll p (l ++ l') = freeAll (freeAll p l) l' :=
  foldl_append

lemma freeAll_total : ∀ (l : List ℕ) (p : Pmm), (freeAll p l).totalPagesCnt = p.totalPagesCnt
  | [], _ => rfl
  | f :: l, p => (freeAll_total l _).trans (pmmFreePages_totalPagesCnt p f 1)

lemma freeAll_countExact : ∀ {l : List ℕ} {p : Pmm}, CountExact p → CountExact (freeAll p l)
  | [], _, h => h
  | f :: l, p, h => freeAll_countExact (l := l) (p := pmmFreePages p f 1)
      (pmmFreePages_countExact h f 1)

lemma bitTest_freeAll :
    ∀ {l : List ℕ} {p : Pmm}, (∀ f ∈ l, f ≠ 0 ∧ f % 4096 = 0 ∧ f / 4096 < p.totalPagesCnt) →
      ∀ i, bitTest (freeAll p l) i = (bitTest p i && !decide (i * 4096 ∈ l))
  | [], _, _, i => by simp [freeAll]
  | f :: l, p, h, i => by
      obtain ⟨hne, haligned, hlt⟩ := h f (by simp)
      have hrest : ∀ g ∈ l, g ≠ 0 ∧ g % 4096 = 0 ∧
          g / 4096 < (pmmFreePages p f 1).totalPagesCnt := by
        intro g hg
        rw [pmmFreePages_totalPagesCnt]
        exact h g (by simp [hg])
      have hiff : f / 4096 = i ↔ i * 4096 = f := by omega
      show bitTest (freeAll (pmmFreePages p f 1) l) i = _
      rw [bitTest_freeAll hrest i, bitTest_free_frame hne hlt]
      simp only [hiff, mem_cons, Bool.decide_or, Bool.not_or, Bool.and_assoc]

/-! ## One level of the teardown -/

/-- A subtree that may be torn down: it owns its frames, and has no huge entries where the teardown
looks for them. -/
structure Detachable (m : Memory) (d t : ℕ) : Prop where
  nodup : (framesBelow m d t).Nodup
  frames : ∀ f ∈ framesBelow m d t, f ≠ 0 ∧ f % 4096 = 0
  small : ∀ p i t', p.length + 2 ≤ d → walk (tableChild m) t p = some t' →
    readEntry m t' i &&& vmmFlagHuge = 0

/-- `free` tears down subtrees of depth `d`: it frees their frames, each once, and writes to no
other frame. -/
def TearsDown (d : ℕ) (free : ℕ → Vm → Vm) : Prop :=
  ∀ t s, Detachable s.mem d t →
    (free t s).pmm = freeAll s.pmm (framesBelow s.mem d t) ∧
    (free t s).spaces = s.spaces ∧ (free t s).kernelCr3 = s.kernelCr3 ∧
    ∀ a, (free t s).mem a ≠ s.mem a → a / 4096 * 4096 ∈ framesBelow s.mem d t

lemma Detachable.congr {m' : Memory} (h : Detachable m d t)
    (hmem : ∀ f ∈ framesBelow m d t, ∀ a, a / 4096 * 4096 = f → m' a = m a) :
    framesBelow m' d t = framesBelow m d t ∧ Detachable m' d t := by
  have hread : ∀ f ∈ framesBelow m d t, ∀ i, readEntry m' f i = readEntry m f i := by
    intro f hf i
    have hal := (h.frames f hf).2
    exact readEntry_congr hal (fun a ha => hmem f hf a (by omega)) i
  have hlist : framesBelow m' d t = framesBelow m d t :=
    reach_congr fun f hf i => tableChild_congr (hread f hf i)
  have hmemb : ∀ p t', p.length ≤ d → walk (tableChild m) t p = some t' → t' ∈ framesBelow m d t :=
    fun p t' hp hw => mem_reach.mpr ⟨p, hp, fun i _ => mem_allIdx i, hw⟩
  refine ⟨hlist, by rw [hlist]; exact h.nodup, by rw [hlist]; exact h.frames, ?_⟩
  intro p i t' hp ht'
  have hwalk : walk (tableChild m') t p = walk (tableChild m) t p := by
    refine walk_congr fun q j hq n hn => tableChild_congr (hread n (hmemb q n ?_ hn) j)
    have := hq.length_le
    rw [length_append, length_singleton] at this
    omega
  rw [hwalk] at ht'
  rw [hread t' (hmemb p t' (by omega) ht') i]
  exact h.small p i t' hp ht'

/-- The frames below the entries `idx` of the table `t`. -/
abbrev framesUnder (m : Memory) (d t : ℕ) (idx : List Idx) : List ℕ :=
  idx.flatMap fun i => ((tableChild m t i).map (framesBelow m d)).getD []

lemma framesUnder_cons_none (h : tableChild m t i = none) :
    framesUnder m d t (i :: idx) = framesUnder m d t idx := by
  rw [framesUnder, flatMap_cons, h]
  rfl

lemma framesUnder_cons_some (h : tableChild m t i = some c) :
    framesUnder m d t (i :: idx) = framesBelow m d c ++ framesUnder m d t idx := by
  rw [framesUnder, flatMap_cons, h]
  rfl

lemma mem_framesUnder (hi : i ∈ idx) (hc : tableChild m t i = some c) (hf : f ∈ framesBelow m d c) :
    f ∈ framesUnder m d t idx :=
  mem_flatMap.mpr ⟨i, hi, by rw [hc]; exact hf⟩

lemma freeTurn_of_none (h : tableChild s.mem t i = none) : freeTurn freeEntry t s i = s := by
  refine if_pos ?_
  by_contra hp
  rw [tableChild_of_present hp] at h
  exact absurd h (by simp)

/-- What a turn at a present entry does, given what tearing down the subtree does. -/
lemma freeTurn_of_some (hfree : TearsDown d free) (ht : t % 4096 = 0)
    (hc : tableChild s.mem t i = some c)
    (hentry : freeEntry (readEntry s.mem t i) s = free (readEntry s.mem t i &&& vmmAddrMask) s)
    (hdet : Detachable s.mem d c) (htc : t ∉ framesBelow s.mem d c) :
    ∃ s1, freeTurn freeEntry t s i = s1 ∧ s1.pmm = freeAll s.pmm (framesBelow s.mem d c) ∧
      s1.spaces = s.spaces ∧ s1.kernelCr3 = s.kernelCr3 ∧
      (∀ a, s1.mem a ≠ s.mem a → a / 4096 * 4096 ∈ framesBelow s.mem d c ∨
        (a / 4096 * 4096 = t ∧ a % 4096 / 8 = (i : ℕ))) ∧
      ∀ j, j ≠ i → readEntry s1.mem t j = readEntry s.mem t j := by
  have hpresent : readEntry s.mem t i &&& vmmFlagPresent ≠ 0 := by
    intro hp
    rw [tableChild_of_absent hp] at hc
    exact absurd hc (by simp)
  have hcaddr : readEntry s.mem t i &&& vmmAddrMask = c := by
    rw [tableChild_of_present hpresent] at hc
    exact Option.some.inj hc
  obtain ⟨hf1, hf2, hf3, hf4⟩ := hfree c s hdet
  refine ⟨{ free c s with mem := writeEntry (free c s).mem t i 0 }, ?_, hf1, hf2, hf3, ?_, ?_⟩
  · simp only [freeTurn, if_neg hpresent, hentry, hcaddr]
  · intro a ha
    by_cases hw : writeEntry (free c s).mem t i 0 a = (free c s).mem a
    · exact Or.inl (hf4 a fun h => ha (hw.trans h))
    · exact Or.inr (writeEntry_cell ht hw)
  · intro j hj
    refine (readEntry_writeEntry_of_ne ht ht (Or.inr hj)).trans ?_
    refine readEntry_congr ht (fun a ha => ?_) j
    by_contra hch
    have hin := hf4 a hch
    rw [show a / 4096 * 4096 = t by omega] at hin
    exact htc hin

/-- After a turn, the entries still to come are as they were, and so is what is below them. -/
lemma framesUnder_after {L : List ℕ} (hi : i ∉ idx)
    (hmem : ∀ a, s'.mem a ≠ s.mem a → a / 4096 * 4096 ∈ L ∨
      (a / 4096 * 4096 = t ∧ a % 4096 / 8 = (i : ℕ)))
    (hread : ∀ j, j ≠ i → readEntry s'.mem t j = readEntry s.mem t j)
    (hdet : ∀ j ∈ idx, ∀ c, tableChild s.mem t j = some c → Detachable s.mem d c)
    (hdisj : ∀ f ∈ L, f ∉ framesUnder s.mem d t idx) (htl : t ∉ framesUnder s.mem d t idx) :
    (∀ j ∈ idx, tableChild s'.mem t j = tableChild s.mem t j) ∧
      framesUnder s'.mem d t idx = framesUnder s.mem d t idx ∧
      ∀ j ∈ idx, ∀ c, tableChild s'.mem t j = some c → Detachable s'.mem d c := by
  have hchild : ∀ j ∈ idx, tableChild s'.mem t j = tableChild s.mem t j :=
    fun j hj => tableChild_congr (hread j fun h => hi (h ▸ hj))
  have hsub : ∀ j ∈ idx, ∀ c, tableChild s.mem t j = some c →
      framesBelow s'.mem d c = framesBelow s.mem d c ∧ Detachable s'.mem d c := by
    intro j hj c hc
    refine (hdet j hj c hc).congr fun f hf a haf => ?_
    have hfU := mem_framesUnder hj hc hf
    by_contra hch
    rcases hmem a hch with hin | ⟨hat, _⟩
    · rw [haf] at hin
      exact hdisj f hin hfU
    · rw [haf] at hat
      rw [hat] at hfU
      exact htl hfU
  refine ⟨hchild, ?_, fun j hj c hc => (hsub j hj c ((hchild j hj).symm.trans hc)).2⟩
  refine flatMap_congr fun j hj => ?_
  rw [hchild j hj]
  cases hc : tableChild s.mem t j with
  | none => rw [Option.map_none, Option.map_none]
  | some c => rw [Option.map_some, Option.map_some, (hsub j hj c hc).1]

lemma freeTurn_loop (hfree : TearsDown d free) (ht : t % 4096 = 0) :
    ∀ (idx : List Idx) (s : Vm), idx.Nodup →
      (∀ i ∈ idx, tableChild s.mem t i ≠ none → ∀ s', freeEntry (readEntry s.mem t i) s' =
        free (readEntry s.mem t i &&& vmmAddrMask) s') →
      (∀ i ∈ idx, ∀ c, tableChild s.mem t i = some c → Detachable s.mem d c) →
      (framesUnder s.mem d t idx).Nodup → t ∉ framesUnder s.mem d t idx →
      ∃ s', idx.foldl (freeTurn freeEntry t) s = s' ∧
        s'.pmm = freeAll s.pmm (framesUnder s.mem d t idx) ∧ s'.spaces = s.spaces ∧
        s'.kernelCr3 = s.kernelCr3 ∧
        ∀ a, s'.mem a ≠ s.mem a →
          a / 4096 * 4096 ∈ framesUnder s.mem d t idx ∨ a / 4096 * 4096 = t := by
  intro idx
  induction idx with
  | nil => intro s _ _ _ _ _; exact ⟨s, rfl, rfl, rfl, rfl, fun a ha => absurd rfl ha⟩
  | cons i idx ih =>
    intro s hnodup hentry hdet hlist htl
    obtain ⟨hi, hnodup'⟩ := nodup_cons.mp hnodup
    rw [foldl_cons]
    cases hc : tableChild s.mem t i with
    | none =>
      rw [framesUnder_cons_none hc] at hlist htl ⊢
      rw [freeTurn_of_none hc]
      exact ih s hnodup' (fun j hj => hentry j (mem_cons_of_mem i hj))
        (fun j hj => hdet j (mem_cons_of_mem i hj)) hlist htl
    | some c =>
      rw [framesUnder_cons_some hc] at hlist htl ⊢
      obtain ⟨_, hlist', hdisj⟩ := nodup_append.mp hlist
      rw [mem_append, not_or] at htl
      obtain ⟨s1, hturn, hp1, hs1, hk1, hmem1, hread1⟩ := freeTurn_of_some hfree ht hc
        (hentry i mem_cons_self (by rw [hc]; simp) s) (hdet i mem_cons_self c hc) htl.1
      obtain ⟨hchild, hunder, hdet'⟩ := framesUnder_after hi hmem1 hread1
        (fun j hj => hdet j (mem_cons_of_mem i hj))
        (fun f hf hfU => hdisj f hf f hfU rfl) htl.2
      obtain ⟨s2, hfold, hp2, hs2, hk2, hmem2⟩ := ih s1 hnodup'
        (fun j hj hne s' => by
          rw [hread1 j fun h => hi (h ▸ hj)]
          rw [hchild j hj] at hne
          exact hentry j (mem_cons_of_mem i hj) hne s')
        hdet' (by rw [hunder]; exact hlist') (by rw [hunder]; exact htl.2)
      rw [hunder] at hp2 hmem2
      refine ⟨s2, by rw [hturn, hfold], ?_, hs2.trans hs1, hk2.trans hk1, fun a ha => ?_⟩
      · rw [hp2, hp1, freeAll_append]
      · rw [mem_append]
        by_cases hlast : s2.mem a = s1.mem a
        · rw [hlast] at ha
          rcases hmem1 a ha with hin | ⟨hat, _⟩
          · exact Or.inl (Or.inl hin)
          · exact Or.inr hat
        · exact (hmem2 a hlast).imp_left Or.inr

/-- **One level of the teardown**: the frames below the entries are freed, then the table. -/
theorem freeTable_spec (freeEntry : ℕ → Vm → Vm) (hfree : TearsDown d free) (ht : t % 4096 = 0)
    (hidx : idx.Nodup)
    (hentry : ∀ i ∈ idx, tableChild s.mem t i ≠ none → ∀ s', freeEntry (readEntry s.mem t i) s' =
      free (readEntry s.mem t i &&& vmmAddrMask) s')
    (hdet : ∀ i ∈ idx, ∀ c, tableChild s.mem t i = some c → Detachable s.mem d c)
    (hnodup : (gather (tableChild s.mem) (framesBelow s.mem d) idx t).Nodup) :
    let s' := freeTable freeEntry idx t s
    s'.pmm = freeAll s.pmm (gather (tableChild s.mem) (framesBelow s.mem d) idx t) ∧
      s'.spaces = s.spaces ∧ s'.kernelCr3 = s.kernelCr3 ∧
      ∀ a, s'.mem a ≠ s.mem a →
        a / 4096 * 4096 ∈ gather (tableChild s.mem) (framesBelow s.mem d) idx t := by
  obtain ⟨hlist, _, hdisj⟩ := nodup_append.mp hnodup
  obtain ⟨s1, hfold, hp, hs, hk, hmem⟩ := freeTurn_loop hfree ht idx s hidx hentry hdet hlist
    (fun hin => hdisj t hin t (by simp) rfl)
  simp only [freeTable, hfold]
  refine ⟨?_, hs, hk, fun a ha => ?_⟩
  · rw [hp, gather, freeAll_append]
    rfl
  · rw [gather, mem_append, mem_singleton]
    exact hmem a ha

lemma Detachable.child (h : Detachable m (d + 1) t) (hc : tableChild m t i = some c) :
    Detachable m d c := by
  have hsub : ∀ f ∈ framesBelow m d c, f ∈ framesBelow m (d + 1) t :=
    fun f hf => mem_gather.mpr (Or.inr ⟨i, mem_allIdx i, c, hc, hf⟩)
  refine ⟨?_, fun f hf => h.frames f (hsub f hf), fun p j t' hp ht' => ?_⟩
  · have hflat := (nodup_append.mp h.nodup).1
    have := (nodup_flatMap.mp hflat).1 i (mem_allIdx i)
    rw [hc, Option.map_some, Option.getD_some] at this
    exact this
  · refine h.small (i :: p) j t' (by rw [length_cons]; omega) ?_
    rw [walk_cons, hc]
    exact ht'

lemma tearsDown_frame : TearsDown 0 fun f => freeFrames f 1 := by
  intro f s hdet
  have hf := hdet.frames f (mem_singleton.mpr rfl)
  have hfree : freeFrames f 1 s = { s with pmm := pmmFreePages s.pmm f 1 } := if_neg hf.1
  beta_reduce
  rw [hfree]
  exact ⟨rfl, rfl, rfl, fun a ha => absurd rfl ha⟩

lemma tearsDown_table (hfree : TearsDown d free)
    (hentry : ∀ e s, (d = 0 ∨ e &&& vmmFlagHuge = 0) → freeEntry e s = free (e &&& vmmAddrMask) s) :
    TearsDown (d + 1) (freeTable freeEntry allIdx) := by
  intro t s hdet
  have ht := (hdet.frames t (mem_gather.mpr (Or.inl rfl))).2
  refine freeTable_spec freeEntry hfree ht nodup_allIdx (fun i _ _ s' => hentry _ s' ?_)
    (fun i _ c hc => hdet.child hc) hdet.nodup
  rcases Nat.eq_zero_or_pos d with hd | hd
  · exact Or.inl hd
  · exact Or.inr (hdet.small [] i t (by simp; omega) rfl)

lemma tearsDown_vmmFreePt : TearsDown 1 vmmFreePt :=
  tearsDown_table tearsDown_frame fun _ _ _ => rfl

lemma tearsDown_vmmFreePd : TearsDown 2 vmmFreePd := by
  refine tearsDown_table tearsDown_vmmFreePt fun e s he => ?_
  rw [if_neg (not_not.mpr (he.resolve_left (by decide)))]

lemma tearsDown_vmmFreePdpt : TearsDown 3 vmmFreePdpt := by
  refine tearsDown_table tearsDown_vmmFreePd fun e s he => ?_
  rw [if_neg (not_not.mpr (he.resolve_left (by decide)))]

/-! ## Destroying a space -/

/-- The frames of a space: its tables and the frames mapped in it. -/
abbrev spaceFrames (m : Memory) (r : ℕ) : List ℕ :=
  gather (tableChild m) (framesBelow m 3) userIdx r

lemma mem_spaceFrames : f ∈ spaceFrames m r ↔ ∃ p, UserPath 4 p ∧ nodeAt m r p = some f := by
  rw [mem_gather]
  constructor
  · rintro (rfl | ⟨i, hi, c, hc, hf⟩)
    · exact ⟨[], ⟨Nat.zero_le _, by simp⟩, rfl⟩
    · obtain ⟨p, hp, _, hw⟩ := mem_reach.mp hf
      refine ⟨i :: p, ⟨by rw [length_cons]; omega, ?_⟩, ?_⟩
      · exact fun h => mem_userIdx.mp hi (Option.some.inj h)
      · rw [nodeAt, walk_cons, hc]
        exact hw
  · rintro ⟨p, hp, hn⟩
    cases p with
    | nil => exact Or.inl (Option.some.inj hn).symm
    | cons i p =>
      rw [nodeAt, walk_cons] at hn
      obtain ⟨c, hc, hw⟩ := Option.bind_eq_some_iff.mp hn
      have hi : i ≠ 0 := fun h => hp.2 (by rw [h]; rfl)
      have hlen := hp.1
      rw [length_cons] at hlen
      exact Or.inr ⟨i, mem_userIdx.mpr hi, c, hc,
        mem_reach.mpr ⟨p, by omega, fun j _ => mem_allIdx j, hw⟩⟩

lemma VmOk.detachable (h : VmOk 4 s) (hr : r ∈ s.roots) (hi : i ≠ 0)
    (hc : tableChild s.mem r i = some c) : Detachable s.mem 3 c := by
  have hwalk : ∀ {p n}, walk (tableChild s.mem) c p = some n → nodeAt s.mem r (i :: p) = some n := by
    intro p n hw
    rw [nodeAt, walk_cons, hc]
    exact hw
  have hpath : ∀ {p : List Idx}, p.length ≤ 3 → UserPath 4 (i :: p) :=
    fun hp => ⟨by rw [length_cons]; omega, fun h => hi (Option.some.inj h)⟩
  refine ⟨nodup_reach nodup_allIdx ?_, ?_, ?_⟩
  · intro p p' f hp hp' hw hw'
    exact tail_eq_of_cons_eq (h.unshared hr hr (hpath hp) (hpath hp') (hwalk hw) (hwalk hw')).2
  · intro f hf
    obtain ⟨p, hp, _, hw⟩ := mem_reach.mp hf
    have := h.frames r hr _ f (hpath hp) (hwalk hw)
    exact ⟨this.ne_zero, this.aligned⟩
  · intro p j t' hp ht'
    refine h.small r hr (i :: p) j t' ⟨?_, fun h => hi (Option.some.inj h)⟩ (hwalk ht')
    simp only [length_append, length_cons, length_nil]
    omega

lemma VmOk.nodup_spaceFrames (h : VmOk 4 s) (hr : r ∈ s.roots) : (spaceFrames s.mem r).Nodup := by
  have hpath : ∀ {i : Idx} {p : List Idx}, i ∈ userIdx → p.length ≤ 3 → UserPath 4 (i :: p) :=
    fun hi hp => ⟨by rw [length_cons]; omega, fun h => mem_userIdx.mp hi (Option.some.inj h)⟩
  have hmem : ∀ {i : Idx} {c f : ℕ}, tableChild s.mem r i = some c → f ∈ framesBelow s.mem 3 c →
      ∃ p, p.length ≤ 3 ∧ nodeAt s.mem r (i :: p) = some f := by
    intro i c f hc hf
    obtain ⟨p, hp, _, hw⟩ := mem_reach.mp hf
    exact ⟨p, hp, by rw [nodeAt, walk_cons, hc]; exact hw⟩
  refine nodup_gather nodup_userIdx (fun i hi c hc => ⟨?_, fun hin => ?_⟩) ?_
  · exact (h.detachable hr (mem_userIdx.mp hi) hc).nodup
  · obtain ⟨p, hp, hn⟩ := hmem hc hin
    exact absurd (h.unshared hr hr (hpath hi hp) ⟨Nat.zero_le _, by simp⟩ hn
      (walk_nil (tableChild s.mem) r)).2 (by simp)
  · intro i hi j hj hij c c' hc hc' f hf hf'
    obtain ⟨p, hp, hn⟩ := hmem hc hf
    obtain ⟨p', hp', hn'⟩ := hmem hc' hf'
    exact hij (head_eq_of_cons_eq (h.unshared hr hr (hpath hi hp) (hpath hj hp') hn hn').2)

/-- **`vmm_destroy_user_space` frees the frames of the space, each once**, and writes to no other
frame.  The space is registered in `s`; it need not be in the state it is destroyed in. -/
theorem vmmDestroyUserSpace_spec (s0 : Vm) (h : VmOk 4 s) (hr : r ∈ s.roots)
    (hk : r ≠ s0.kernelCr3) (hmem0 : s0.mem = s.mem) :
    (vmmDestroyUserSpace s0 r).pmm = freeAll s0.pmm (spaceFrames s.mem r) ∧
      (vmmDestroyUserSpace s0 r).spaces = s0.spaces ∧
      (vmmDestroyUserSpace s0 r).kernelCr3 = s0.kernelCr3 ∧
      ∀ a, (vmmDestroyUserSpace s0 r).mem a ≠ s.mem a →
        a / 4096 * 4096 ∈ spaceFrames s.mem r := by
  have hok := (h.root_eq hr).1
  have hdestroy : vmmDestroyUserSpace s0 r =
      freeTable (fun entry => vmmFreePdpt (entry &&& vmmAddrMask)) userIdx r s0 := by
    rw [vmmDestroyUserSpace, if_neg (not_or.mpr ⟨hok.ne_zero, hk⟩), pageFrame_and_mask hok]
  obtain ⟨hp, hspaces, hkernel, hmem⟩ := freeTable_spec (s := s0)
    (fun entry => vmmFreePdpt (entry &&& vmmAddrMask)) tearsDown_vmmFreePdpt hok.aligned
    nodup_userIdx (fun _ _ _ _ => rfl)
    (fun i hi c hc => by rw [hmem0] at hc ⊢; exact h.detachable hr (mem_userIdx.mp hi) hc)
    (by rw [hmem0]; exact h.nodup_spaceFrames hr)
  rw [hdestroy]
  rw [hmem0] at hp hmem
  exact ⟨hp, hspaces, hkernel, hmem⟩

/-! ## The life of a space -/

/-- What is done with a space while it lives. -/
inductive SpaceOp
  | map (virt flags : ℕ) (content : ℕ → UInt8)
  | unmap (virt : ℕ)

/-- One step in the space `r`. -/
def SpaceOp.apply (r : ℕ) (s : Vm) : SpaceOp → Vm
  | .map virt flags content => (mapFreshPage content s r virt flags).2
  | .unmap virt => unmapFreePage s r virt

/-- The page is not under the kernel's PML4 entry, and the flags have no address bits. -/
def SpaceOp.Ok : SpaceOp → Prop
  | .map virt flags _ => l4 virt ≠ 0 ∧ PageFlags flags
  | .unmap virt => l4 virt ≠ 0

/-- The invariant of the life of the space `r` that was created in state `s`: what is allocated now
is what was allocated then and the frames of the space. -/
structure Lives (s : Vm) (r : ℕ) (spaces : List UserSpace) (s' : Vm) : Prop where
  ok : VmOk 4 s'
  root : r ∈ s'.roots
  spaces : s'.spaces = spaces
  kernel : s'.kernelCr3 = s.kernelCr3
  used : ∀ i, bitTest s'.pmm i = true ↔ bitTest s.pmm i = true ∨
    ∃ p f, UserPath 4 p ∧ nodeAt s'.mem r p = some f ∧ f / 4096 = i
  own : ∀ p f, UserPath 4 p → nodeAt s'.mem r p = some f → bitTest s.pmm (f / 4096) = false
  mem : ∀ a, bitTest s.pmm (a / 4096) = true → s'.mem a = s.mem a

lemma Created.lives (hc : Created s s' r) (h : VmOk 4 s) : Lives s r s'.spaces s' where
  ok := hc.vmOk h (by decide) (le_refl 4)
  root := hc.roots ▸ Set.mem_insert r s.roots
  spaces := rfl
  kernel := hc.kernel
  used i := by
    rw [hc.handed.bits, Bool.or_eq_true, decide_eq_true_eq, or_comm]
    refine or_congr_right ⟨fun hi => ⟨[], r, ⟨Nat.zero_le _, by simp⟩, rfl, hi⟩, ?_⟩
    rintro ⟨p, f, hp, hn, hi⟩
    rwa [(hc.nodeAt_eq hp hn).2] at hi
  own p f hp hn := by
    rw [(hc.nodeAt_eq hp hn).2]
    exact hc.handed.clear
  mem a ha := hc.outside a (used_ne_clear ha hc.handed.clear)

lemma Lives.not_node (hl : Lives s r spaces s') {i : ℕ} {p : List Idx} (hi : bitTest s.pmm i = true)
    (hp : UserPath 4 p) : nodeAt s'.mem r p ≠ some (i * 4096) := by
  refine fun hn => used_ne_clear hi (hl.own p _ hp hn) ?_
  rw [Nat.mul_div_cancel _ (by decide)]

lemma Lives.extends {s'' : Vm} (hl : Lives s r spaces s') {new : List ℕ} (he : Extends 4 r new s' s'') :
    Lives s r spaces s'' where
  ok := he.ok
  root := he.roots ▸ hl.root
  spaces := he.spaces.trans hl.spaces
  kernel := he.kernel.trans hl.kernel
  used i := by
    constructor
    · intro hi
      cases hmid : bitTest s'.pmm i with
      | false =>
        obtain ⟨p, hp, hn⟩ := he.fresh i hi hmid
        exact Or.inr ⟨p, i * 4096, hp, hn, Nat.mul_div_cancel i (by decide)⟩
      | true =>
        refine ((hl.used i).mp hmid).imp_right ?_
        rintro ⟨p, f, hp, hn, hfi⟩
        exact ⟨p, f, hp, he.keep r hl.root p f hp hn, hfi⟩
    · rintro (hi | ⟨p, f, hp, hn, rfl⟩)
      · exact he.used i ((hl.used i).mpr (Or.inl hi))
      · exact (he.ok.frames r (he.roots ▸ hl.root) p f hp hn).used
  own p f hp hn := by
    rcases he.linked r hl.root p f hp hn with hold | ⟨_, hnew⟩
    · exact hl.own p f hp hold
    · exact Bool.eq_false_iff.mpr fun hset =>
        used_ne_clear ((hl.used _).mpr (Or.inl hset)) (he.clear f hnew).2 rfl
  mem a ha := by
    rw [← hl.mem a ha]
    by_contra hch
    obtain ⟨p, i, hp, hn, _⟩ := he.mem_used hch ((hl.used _).mpr (Or.inl ha))
    exact hl.not_node ha (hp.closed p i) hn

lemma Lives.unmapped {s'' : Vm} {v : ℕ} (hl : Lives s r spaces s') (hv : l4 v ≠ 0)
    (hu : Unmapped r v s' s'' f) : Lives s r spaces s'' := by
  have hroots : s''.roots = s'.roots := by rw [Vm.roots, Vm.roots, hu.spaces]
  have hpath := (userPath_tablePath hv).snoc (tablePath_length v) (l1 v)
  have hback : ∀ p n, UserPath 4 p → nodeAt s''.mem r p = some n → nodeAt s'.mem r p = some n := by
    intro p n hp hn
    obtain ⟨hcut, hkeep⟩ := hu.nodes r hl.root p hp
    by_cases hpv : r = r ∧ p = tablePath v ++ [l1 v]
    · rw [hcut hpv] at hn
      exact absurd hn (by simp)
    · rwa [hkeep hpv] at hn
  refine ⟨hu.ok, hroots ▸ hl.root, hu.spaces.trans hl.spaces, hu.kernel.trans hl.kernel, ?_, ?_, ?_⟩
  · intro i
    constructor
    · intro hi
      rw [hu.bits, Bool.and_eq_true, Bool.not_eq_true', decide_eq_false_iff_not] at hi
      refine ((hl.used i).mp hi.1).imp_right ?_
      rintro ⟨p, n, hp, hn, hni⟩
      refine ⟨p, n, hp, ?_, hni⟩
      rw [(hu.nodes r hl.root p hp).2 ?_, hn]
      rintro ⟨_, rfl⟩
      rw [hu.node, Option.some.injEq] at hn
      exact hi.2 (hn ▸ hni)
    · rintro (hi | ⟨p, n, hp, hn, rfl⟩)
      · rw [hu.bits, (hl.used i).mpr (Or.inl hi), Bool.true_and, Bool.not_eq_true',
          decide_eq_false_iff_not]
        exact (used_ne_clear hi (hl.own _ f hpath hu.node)).symm
      · exact (hu.ok.frames r (hroots ▸ hl.root) p n hp hn).used
  · exact fun p n hp hn => hl.own p n hp (hback p n hp hn)
  · intro a ha
    rw [← hl.mem a ha]
    by_contra hch
    exact hl.not_node ha ((userPath_tablePath hv).mono (by decide)) (hu.mem a hch).1

/-- **One step of a space's life.** -/
theorem Lives.apply (hl : Lives s r spaces s') {op : SpaceOp} (hop : op.Ok) :
    Lives s r spaces (op.apply r s') := by
  cases op with
  | map virt flags content =>
    obtain ⟨b, s'', new, heq, hext, _⟩ := mapFreshPage_spec hl.ok hl.root hop.1 hop.2 content
    simp only [SpaceOp.apply, heq]
    exact hl.extends hext
  | unmap virt =>
    rcases unmapFreePage_spec hl.ok hl.root hop with ⟨_, heq⟩ | ⟨f, hu⟩
    · simp only [SpaceOp.apply, heq]
      exact hl
    · exact hl.unmapped hop hu

/-- A space that was just created is the only one with its PML4, so the registry finds it, and its
one reference is the last. -/
lemma releaseSpace_created {spaces' : List UserSpace} (hreg : registerSpace spaces r = some spaces')
    (hnew : ∀ e ∈ spaces, e.cr3 = r → e.refs = 0) : (releaseSpace spaces' r).1 = true := by
  rw [registerSpace, Option.map_eq_some_iff] at hreg
  obtain ⟨slot, hslot, rfl⟩ := hreg
  rw [findFreeSpaceSlot, findIdx?_eq_some_iff_getElem] at hslot
  obtain ⟨hlt, _, _⟩ := hslot
  have hfind : findSpaceSlot (spaces.set slot { cr3 := r, refs := 1 }) r = some slot := by
    rw [findSpaceSlot, findIdx?_eq_some_iff_getElem]
    refine ⟨by simpa using hlt, by simp, fun j hj => ?_⟩
    rw [getElem_set_ne (by omega)]
    have := hnew spaces[j] (getElem_mem _)
    simp only [decide_eq_true_eq, not_and, not_not]
    exact this
  have hget : (spaces.set slot { cr3 := r, refs := 1 })[slot]? = some { cr3 := r, refs := 1 } := by
    simp [hlt]
  simp only [releaseSpace, hfind, hget, if_true]

lemma created_of_eq (hzero : bitTest s.pmm 0 = true) (heq : vmmCreateUserSpace s = (r, s'))
    (hne : r ≠ 0) : Created s s' r ∧ registerSpace s.spaces r = some s'.spaces := by
  rcases vmmCreateUserSpace_spec hzero with ⟨s1, heq1, _⟩ | ⟨f, s1, heq1, hc⟩
  · rw [heq, Prod.mk.injEq] at heq1
    exact absurd heq1.1 hne
  · rw [heq, Prod.mk.injEq] at heq1
    obtain ⟨rfl, rfl⟩ := heq1
    exact ⟨hc, hc.slot⟩

/-- **Frames are conserved by the life of a space.**  From any state in which the registered spaces
own their frames, create a space, map fresh frames in it and unmap and free them in any order, and
release its one reference.  Then the bitmap and the count are what they were before the creation;
no frame that was in use then has changed; and the teardown has freed the frames the space still
had, each of them once. -/
theorem vmm_space_life_conserves_frames (h : VmOk 4 s)
    (hkernel : bitTest s.pmm (s.kernelCr3 / 4096) = true) {s₁ : Vm}
    (hcreate : vmmCreateUserSpace s = (r, s₁)) (hr : r ≠ 0) {ops : List SpaceOp}
    (hops : ∀ op ∈ ops, op.Ok) :
    let s₂ := run (SpaceOp.apply r) s₁ ops
    let s₃ := vmmReleaseUserSpace s₂ r
    s₃.pmm.bitmap = s.pmm.bitmap ∧ s₃.pmm.freePagesCnt = s.pmm.freePagesCnt ∧
      (∀ a, bitTest s.pmm (a / 4096) = true → s₃.mem a = s.mem a) ∧
      (spaceFrames s₂.mem r).Nodup ∧ s₃.pmm = freeAll s₂.pmm (spaceFrames s₂.mem r) := by
  intro s₂ s₃
  obtain ⟨hc, hreg⟩ := created_of_eq h.zero hcreate hr
  have hl : Lives s r s₁.spaces s₂ :=
    run_invariant (I := Lives s r s₁.spaces) (fun _ _ hs hop => hs.apply hop) (hc.lives h)
      (admissible_of_forall hops)
  have hk : r ≠ s₂.kernelCr3 := by
    intro heq
    rw [heq, hl.kernel] at hc
    exact used_ne_clear hkernel hc.handed.clear rfl
  -- the release finds the one reference and destroys the space
  have hlast : (releaseSpace s₂.spaces r).1 = true := by
    rw [hl.spaces]
    refine releaseSpace_created hreg fun e he hcr3 => ?_
    by_contra hrefs
    have hroot : r ∈ s.roots := ⟨e, he, hcr3, hrefs⟩
    exact used_ne_clear (h.root_eq hroot).1.used hc.handed.clear rfl
  have hs3 : s₃ = vmmDestroyUserSpace { s₂ with spaces := (releaseSpace s₂.spaces r).2 } r := by
    show vmmReleaseUserSpace s₂ r = _
    rw [vmmReleaseUserSpace, if_neg (not_or.mpr ⟨hr, hk⟩)]
    simp only [hlast, if_true]
  obtain ⟨hpmm, _, _, hmem⟩ := vmmDestroyUserSpace_spec
    { s₂ with spaces := (releaseSpace s₂.spaces r).2 } hl.ok hl.root hk rfl
  rw [← hs3] at hpmm hmem
  change s₃.pmm = freeAll s₂.pmm (spaceFrames s₂.mem r) at hpmm
  have hbits : ∀ i, bitTest s₃.pmm i = bitTest s.pmm i := by
    intro i
    have hframes : ∀ f ∈ spaceFrames s₂.mem r,
        f ≠ 0 ∧ f % 4096 = 0 ∧ f / 4096 < s₂.pmm.totalPagesCnt := by
      intro f hf
      obtain ⟨p, hp, hn⟩ := mem_spaceFrames.mp hf
      have := hl.ok.frames r hl.root p f hp hn
      exact ⟨this.ne_zero, this.aligned, lt_of_lt_of_eq this.tracked hl.ok.total.symm⟩
    rw [hpmm, bitTest_freeAll hframes, Bool.eq_iff_iff, Bool.and_eq_true, Bool.not_eq_true',
      decide_eq_false_iff_not, hl.used i]
    constructor
    · rintro ⟨hi | ⟨p, f, hp, hn, rfl⟩, hout⟩
      · exact hi
      · refine absurd (mem_spaceFrames.mpr ⟨p, hp, ?_⟩) hout
        have := (hl.ok.frames r hl.root p f hp hn).aligned
        rw [hn, show f / 4096 * 4096 = f by omega]
    · refine fun hi => ⟨Or.inl hi, fun hin => ?_⟩
      obtain ⟨p, hp, hn⟩ := mem_spaceFrames.mp hin
      exact hl.not_node hi hp hn
  have hbitmap : s₃.pmm.bitmap = s.pmm.bitmap := bitmap_ext hbits
  refine ⟨hbitmap, ?_, fun a ha => ?_, hl.ok.nodup_spaceFrames hl.root, hpmm⟩
  · have hcount : CountExact s₃.pmm := hpmm ▸ freeAll_countExact hl.ok.count
    have htotal : s₃.pmm.totalPagesCnt = s.pmm.totalPagesCnt := by
      rw [hpmm, freeAll_total, hl.ok.total, h.total]
    have h0 := h.count
    rw [CountExact] at hcount h0
    rw [hcount, h0, hbitmap, htotal]
  · rw [← hl.mem a ha]
    by_contra hch
    obtain ⟨p, hp, hn⟩ := mem_spaceFrames.mp (hmem a hch)
    exact hl.not_node ha hp hn

/-- A page is mapped in a new space and unmapped, and another one is still mapped at the end. -/
theorem vmm_space_life_conserves_frames_small :
    let r := (vmmCreateUserSpace smallVm).1
    let s₂ := run (SpaceOp.apply r) (vmmCreateUserSpace smallVm).2
      [.map 0x8000000000 7 fun _ => 0, .map 0x8000001000 7 fun _ => 0, .unmap 0x8000000000]
    let s₃ := vmmReleaseUserSpace s₂ r
    s₃.pmm.bitmap = smallPmm.bitmap ∧ s₃.pmm.freePagesCnt = 8 ∧
      (∀ a, bitTest smallPmm (a / 4096) = true → s₃.mem a = smallBoot.mem a) ∧
      (spaceFrames s₂.mem r).Nodup ∧ s₃.pmm = freeAll s₂.pmm (spaceFrames s₂.mem r) := by
  refine vmm_space_life_conserves_frames smallVm_ok ?_ Prod.mk.eta.symm ?_ ?_
  · exact (bitTest_smallPmm _).mpr (by decide)
  · decide +kernel
  · intro op hop
    fin_cases hop
    · exact ⟨by decide, by decide, by decide⟩
    · exact ⟨by decide, by decide, by decide⟩
    · show l4 0x8000000000 ≠ 0
      decide

end MyOs
