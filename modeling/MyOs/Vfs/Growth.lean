import MyOs.Vfs.Shape

/-!
# Calls and the blocks in use

Most calls only add to the tree.  `Grown s kids s' kids'` says what that means: blocks in use stay in use,
nothing but a block in use is passed to `kfree`, open files stay as they are, nodes of the tree stay in it,
the tree takes over no block that was in use before, and the blocks of a node stay different ones (`Blocks`).
A call may free what it allocated itself, and add it to the tree: that is a block which was not in use before
(`Grown.kfree`, `Fresh`).

Only `vfs_unlink` takes a node away.  `Removed s kids s' kids' c` says what becomes of the blocks then: those
of the node are gone, the others stay, and the pointers that were no blocks in use are those to the archive.
-/

namespace MyOs

open Lib List Function

variable {ok : List UInt8 → Prop} {A : Allocator} {s s' s'' : Vfs} {kids kids' kids'' : ℕ → List ℕ}
  {c d n p : ℕ}
variable {data : NodeData} {s0 : Vfs} {kids0 : ℕ → List ℕ} {name : List UInt8} {type : NodeType}
  {ops : NodeOps} {r : ℕ × Vfs}

namespace Vfs

/-- No block is in use twice, and the blocks of a node are different ones. -/
structure Blocks (s : Vfs) (kids : ℕ → List ℕ) : Prop where
  nodup : s.live.Nodup
  distinct : ∀ n, s.InTree kids n → (s.frees n).Nodup

/-- Nothing was taken away. -/
structure Grown (s : Vfs) (kids : ℕ → List ℕ) (s' : Vfs) (kids' : ℕ → List ℕ) : Prop where
  live : ∀ p ∈ s.live, p ∈ s'.live
  strays : s'.strays = s.strays
  file : s'.file = s.file
  inTree : ∀ n, s.InTree kids n → s'.InTree kids' n
  unowned : ∀ p ∈ s.live, s.Unowned kids p → s'.Unowned kids' p
  blocks : Blocks s kids → Blocks s' kids'

/-- A node made since the state `s₀`, which is not in the tree yet. -/
structure Fresh (s₀ s : Vfs) (kids : ℕ → List ℕ) (c : ℕ) : Prop extends Loose s kids c where
  nodup : (s.frees c).Nodup
  new : ∀ p, s.Owns c p → p ∉ s₀.live

/-- The node `c` was taken out of the tree and freed. -/
structure Removed (s : Vfs) (kids : ℕ → List ℕ) (s' : Vfs) (kids' : ℕ → List ℕ) (c : ℕ) : Prop where
  mem : s.InTree kids c
  live : ∀ p ∈ s.live, ¬ s.Owns c p → p ∈ s'.live
  gone : c ∉ s'.live
  strays : s'.strays = s.strays ↔ ∀ off, .archive off ∉ s.frees c
  file : s'.file = s.file
  inTree : ∀ n, s.InTree kids n → n ≠ c → s'.InTree kids' n
  unowned : ∀ p, s.Unowned kids p → s'.Unowned kids' p
  blocks : Blocks s' kids'

/-- The tree has grown, and still has its shape. -/
def Extends (ok : List UInt8 → Prop) (s : Vfs) (kids : ℕ → List ℕ) (s' : Vfs) : Prop :=
  ∃ kids', Shape ok s' kids' ∧ Grown s kids s' kids'

/-- The tree has grown, still has its shape, and `n` is one of its nodes. -/
def ExtendsTo (ok : List UInt8 → Prop) (s : Vfs) (kids : ℕ → List ℕ) (s' : Vfs) (n : ℕ) : Prop :=
  ∃ kids', Shape ok s' kids' ∧ Grown s kids s' kids' ∧ s'.InTree kids' n

lemma ExtendsTo.extends (h : ExtendsTo ok s kids s' n) : Extends ok s kids s' := by
  obtain ⟨kids', hs, hgrown, -⟩ := h
  exact ⟨kids', hs, hgrown⟩

/-! ## Steps -/

namespace Grown

lemma refl (s : Vfs) (kids : ℕ → List ℕ) : Grown s kids s kids :=
  ⟨fun _ h => h, rfl, rfl, fun _ h => h, fun _ _ h => h, id⟩

lemma trans (h : Grown s kids s' kids') (h' : Grown s' kids' s'' kids'') : Grown s kids s'' kids'' where
  live p hp := h'.live p (h.live p hp)
  strays := h'.strays.trans h.strays
  file := h'.file.trans h.file
  inTree n hn := h'.inTree n (h.inTree n hn)
  unowned p hp hun := h'.unowned p (h.live p hp) (h.unowned p hp hun)
  blocks hb := h'.blocks (h.blocks hb)

lemma extends_trans (h : Grown s kids s' kids') (h' : Extends ok s' kids' s'') :
    Extends ok s kids s'' := by
  obtain ⟨kids'', hs, hgrown⟩ := h'
  exact ⟨kids'', hs, h.trans hgrown⟩

lemma of_sameTree (h : SameTree kids s s') (hlive : ∀ p ∈ s.live, p ∈ s'.live)
    (hstrays : s'.strays = s.strays) (hfile : s'.file = s.file) (hnodup : s.live.Nodup → s'.live.Nodup) :
    Grown s kids s' kids where
  live := hlive
  strays := hstrays
  file := hfile
  inTree _ hn := h.inTree.mpr hn
  unowned _ _ hun := h.unowned hun
  blocks hb := by
    refine ⟨hnodup hb.nodup, fun n hn => ?_⟩
    have hn' := h.inTree.mp hn
    rw [frees_congr (congrArg identity (h.node n hn'))]
    exact hb.distinct n hn'

lemma kmalloc (A : Allocator) (s : Vfs) (kids : ℕ → List ℕ) : Grown s kids (s.kmalloc A).2 kids := by
  refine of_sameTree (Shape.sameTree_kmalloc A s kids) (fun _ => Shape.mem_kmalloc_live) rfl rfl ?_
  intro hnodup
  simp only [Vfs.kmalloc]
  split_ifs
  · exact hnodup
  · exact nodup_cons.mpr ⟨A.fresh _ _, hnodup⟩

lemma kfree (h : Grown s kids s' kids') (hp : p ∈ s'.live) (hnew : p ∉ s.live) :
    Grown s kids (s'.kfree (.heap p)) kids' := by
  have hsame := Shape.sameTree_kfree (.heap p) s' kids'
  refine ⟨fun q hq => ?_, ?_, (Shape.kfree_eq s' _).2.1.trans h.file, fun n hn =>
    hsame.inTree.mpr (h.inTree n hn), fun q hq hun => hsame.unowned (h.unowned q hq hun), fun hb =>
    ⟨?_, fun n hn => ?_⟩⟩
  · refine Shape.mem_kfree (h.live q hq) ?_
    rintro ⟨⟩
    exact hnew hq
  · rw [Shape.kfree_heap hp]
    exact h.strays
  · rw [Shape.kfree_heap hp]
    exact (h.blocks hb).nodup.erase p
  · have hn' := hsame.inTree.mp hn
    rw [frees_congr (congrArg identity (hsame.node n hn'))]
    exact (h.blocks hb).distinct n hn'

lemma release (h : Grown s kids s' kids') (hdata : ∀ p, .heap p ∈ data.frees → p ∈ s'.live ∧ p ∉ s.live) :
    Grown s kids (data.release s') kids' := by
  have hfree : ∀ addr, .heap addr ∈ data.frees → Grown s kids (s'.kfree (.heap addr)) kids' :=
    fun addr haddr => h.kfree (hdata addr haddr).1 (hdata addr haddr).2
  cases data with
  | null => exact h
  | memfs addr file =>
    refine hfree addr ?_
    rw [NodeData.frees]
    split_ifs <;> simp
  | tarfs addr file => exact hfree addr (by simp [NodeData.frees])

lemma modify (hc : ¬ s.InTree kids c) (f : VfsNode → VfsNode) : Grown s kids (s.modify c f) kids :=
  of_sameTree (Shape.sameTree_modify hc f) (fun _ h => h) rfl rfl id

lemma attach (h : Grown s0 kids0 s kids) (hc : Fresh s0 s kids c) :
    Grown s0 kids0 (s.attach d c) (update kids d (c :: kids d)) := by
  have hfrees : ∀ n, (s.attach d c).frees n = s.frees n := fun n => frees_congr (identity_attach s d c n)
  refine ⟨h.live, h.strays, h.file, fun n hn => Shape.inTree_attach.mpr (Or.inr (h.inTree n hn)),
    fun p hp hun n hn howns => ?_, fun hb => ⟨(h.blocks hb).nodup, fun n hn => ?_⟩⟩
  · rw [Owns, hfrees] at howns
    rcases Shape.inTree_attach.mp hn with rfl | hn
    · exact hc.new p howns hp
    · exact h.unowned p hp hun n hn howns
  · rw [hfrees]
    rcases Shape.inTree_attach.mp hn with rfl | hn
    · exact hc.nodup
    · exact (h.blocks hb).distinct n hn

end Grown

/-! ## New nodes -/

namespace Shape

lemma createNode_blocks (hr : vfsCreateNode A s name type ops data = r) (hnull : r.1 ≠ 0) :
    ∃ copy, r.2.frees r.1 = (if type = .file then data.frees else []) ++ [.heap copy, .heap r.1] ∧
      r.2.live = copy :: r.1 :: s.live ∧ r.2.strays = s.strays ∧
      copy ≠ r.1 ∧ copy ∉ s.live ∧ r.1 ∉ s.live := by
  subst hr
  simp only [vfsCreateNode] at hnull ⊢
  by_cases h1 : (s.kmalloc A).1 = 0
  · rw [if_pos h1] at hnull
    exact absurd h1 hnull
  by_cases h2 : ((s.kmalloc A).2.kmalloc A).1 = 0
  · rw [if_neg h1, if_pos h2] at hnull
    exact absurd rfl hnull
  rw [if_neg h1, if_neg h2]
  have hcopy : ((s.kmalloc A).2.kmalloc A).1 ∉ (s.kmalloc A).2.live := A.fresh _ _
  refine ⟨((s.kmalloc A).2.kmalloc A).1, ?_, ?_, rfl, fun heq => ?_, fun h => hcopy (mem_kmalloc_live h),
    A.fresh _ _⟩
  · simp only [frees, modify_self]
  · rw [modify_live, kmalloc_live h2, kmalloc_live h1]
  · exact hcopy (heq ▸ kmalloc_mem_live h1)

lemma grown_createNode (hs : Shape ok s kids) (hr : vfsCreateNode A s name type ops data = r) :
    Grown s kids r.2 kids := by
  subst hr
  have hgrown := (Grown.kmalloc A s kids).trans (Grown.kmalloc A (s.kmalloc A).2 kids)
  simp only [vfsCreateNode]
  split_ifs with h1 h2
  · exact Grown.kmalloc A s kids
  · exact hgrown.kfree (mem_kmalloc_live (kmalloc_mem_live h1)) (A.fresh _ _)
  · dsimp only
    refine hgrown.trans (Grown.modify (fun hn => ?_) _)
    exact hs.kmalloc_unowned A _ hn (owns_self s _)

/-- `vfs_create_node`: the tree is the same, and the new node shares no block with it. -/
lemma newNode (hgrown : Grown s0 kids0 s kids) (hs : Shape ok s kids) (hnodup : data.frees.Nodup)
    (hdata : ∀ p, .heap p ∈ data.frees → p ∈ s.live ∧ s.Unowned kids p ∧ p ∉ s0.live)
    (hr : vfsCreateNode A s name type ops data = r) :
    Shape ok r.2 kids ∧ SameTree kids s r.2 ∧ Grown s0 kids0 r.2 kids ∧
      (r.1 ≠ 0 → Fresh s0 r.2 kids r.1 ∧ (r.2.node r.1).name = name) := by
  obtain ⟨hs', hsame, hnew⟩ := hs.createNode (fun p hp => ⟨(hdata p hp).1, (hdata p hp).2.1⟩) hr
  refine ⟨hs', hsame, hgrown.trans (hs.grown_createNode hr), fun hnull => ?_⟩
  obtain ⟨hloose, hname⟩ := hnew hnull
  obtain ⟨copy, hfrees, -, -, hne, hcopy, hnode⟩ := createNode_blocks hr hnull
  -- the blocks of the data were in use, the other two were not
  have hold : ∀ p, .heap p ∈ (if type = .file then data.frees else []) → p ∈ s.live ∧ p ∉ s0.live := by
    intro p hp
    split_ifs at hp
    · exact ⟨(hdata p hp).1, (hdata p hp).2.2⟩
    · cases hp
  have hpart : (if type = .file then data.frees else []).Nodup := by
    split_ifs
    · exact hnodup
    · exact nodup_nil
  refine ⟨⟨hloose, ?_, fun p hp => ?_⟩, hname⟩
  · rw [hfrees]
    refine nodup_append.mpr ⟨hpart, by simp [hne], ?_⟩
    rintro q hq q' hq' rfl
    simp only [mem_cons, not_mem_nil, or_false] at hq'
    rcases hq' with rfl | rfl
    · exact hcopy (hold _ hq).1
    · exact hnode (hold _ hq).1
  · rw [Owns, hfrees] at hp
    simp only [mem_append, mem_cons, not_mem_nil, or_false, KPtr.heap.injEq] at hp
    rcases hp with hp | rfl | rfl
    · exact (hold p hp).2
    · exact fun h => hcopy (hgrown.live _ h)
    · exact fun h => hnode (hgrown.live _ h)

lemma addChild_eq (hs : Shape ok s kids) (hd : s.InTree kids d) (hdir : (s.node d).type = .dir)
    (hnull : c ≠ 0) (hnew : ∀ k ∈ kids d, (s.node k).name ≠ (s.node c).name) :
    vfsAddChild s d c = some (s.attach d c) := by
  rw [vfsAddChild, if_neg (by simp [hs.ne_zero hd, hnull, hdir]),
    if_neg (not_not.mpr (hs.findChild_eq_zero hd hnew))]

/-- The same for a node that was made outside of the tree, with a name that was not there before. -/
lemma addChild_new (hs' : Shape ok s' kids) (hsame : SameTree kids s s') (hc : Loose s' kids c)
    (hnull : c ≠ 0) (hname : (s'.node c).name = name) (hok : ok name) (hd : s.InTree kids d)
    (hdir : (s.node d).type = .dir) (hunused : ∀ k ∈ kids d, (s.node k).name ≠ name) :
    vfsAddChild s' d c = some (s'.attach d c) ∧
      Shape ok (s'.attach d c) (update kids d (c :: kids d)) := by
  have hd' : s'.InTree kids d := hsame.inTree.mpr hd
  have hdir' : (s'.node d).type = .dir := by rw [hsame.node d hd, hdir]
  have hunused' : ∀ k ∈ kids d, (s'.node k).name ≠ (s'.node c).name := by
    intro k hk
    rw [hname, hsame.node k (InTree.of_mem hk)]
    exact hunused k hk
  exact ⟨hs'.addChild_eq hd' hdir' hnull hunused', hs'.attach hd' hdir' hc hnull (hname ▸ hok) hunused'⟩

section

variable (hgrown : Grown s0 kids0 s kids) (hs : Shape ok s kids) (hd : s.InTree kids d)
  (hc : Fresh s0 s kids c) (hok : ok (s.node c).name)
include hgrown hs hd hc hok

lemma addChild (h : vfsAddChild s d c = some s') : ExtendsTo ok s0 kids0 s' c := by
  simp only [vfsAddChild] at h
  split_ifs at h with hnull hfind
  cases h
  simp only [not_or, not_not] at hnull hfind
  exact ⟨_, hs.attach hd hnull.2.2 hc.toLoose hnull.2.1 hok fun k hk =>
    hs.name_ne_of_findChild hd hfind hk, hgrown.attach hc, inTree_attach.mpr (Or.inl rfl)⟩

lemma addChild_getD : Extends ok s0 kids0 ((vfsAddChild s d c).getD s) := by
  cases h : vfsAddChild s d c with
  | none => exact ⟨kids, hs, hgrown⟩
  | some s' => exact (addChild hgrown hs hd hc hok h).extends

end

/-! ## Freeing -/

/-- A list of different blocks in use and pointers to the archive is freed: only the latter are recorded. -/
lemma foldl_kfree_spec {ptrs : List KPtr} (hnodup : ptrs.Nodup) (hmem : ∀ p, .heap p ∈ ptrs → p ∈ s.live)
    (hlive : s.live.Nodup) :
    (ptrs.foldl Vfs.kfree s).live.Nodup ∧
      (∀ p, p ∈ (ptrs.foldl Vfs.kfree s).live ↔ p ∈ s.live ∧ .heap p ∉ ptrs) ∧
      (ptrs.foldl Vfs.kfree s).file = s.file ∧
      ∃ added, (ptrs.foldl Vfs.kfree s).strays = added ++ s.strays ∧
        (added = [] ↔ ∀ off, .archive off ∉ ptrs) := by
  induction ptrs generalizing s with
  | nil => exact ⟨hlive, by simp, rfl, [], rfl, by simp⟩
  | cons ptr ptrs ih =>
    obtain ⟨hnotin, hrest⟩ := nodup_cons.mp hnodup
    rw [foldl_cons]
    cases ptr with
    | heap q =>
      have hq : q ∈ s.live := hmem q mem_cons_self
      have hmem' : ∀ p, .heap p ∈ ptrs → p ∈ s.live.erase q := fun p hp => by
        refine (mem_erase_of_ne ?_).mpr (hmem p (mem_cons_of_mem _ hp))
        rintro rfl
        exact hnotin hp
      rw [kfree_heap hq]
      obtain ⟨hlive', hmem'', hfile, added, hstrays, hadded⟩ :=
        ih (s := { s with live := s.live.erase q }) hrest hmem' (hlive.erase q)
      refine ⟨hlive', fun p => ?_, hfile, added, hstrays, ?_⟩
      · rw [hmem'', hlive.mem_erase_iff, mem_cons, not_or, KPtr.heap.injEq]
        exact and_assoc.trans (and_left_comm.trans (and_congr_right fun _ => Iff.rfl))
      · simpa using hadded
    | archive off =>
      have hmem' : ∀ p, .heap p ∈ ptrs → p ∈ (s.kfree (.archive off)).live :=
        fun p hp => hmem p (mem_cons_of_mem _ hp)
      obtain ⟨hlive', hmem'', hfile, added, hstrays, -⟩ :=
        ih (s := s.kfree (.archive off)) hrest hmem' hlive
      refine ⟨hlive', fun p => ?_, hfile, added ++ [.archive off], ?_, ?_⟩
      · rw [hmem'']
        simp [Vfs.kfree]
      · rw [hstrays]
        simp [Vfs.kfree]
      · refine iff_of_false (by simp) fun h => h off mem_cons_self

lemma removed (hs : Shape ok s kids) (hc : c ∈ kids d) (place : Option ℕ) (hb : Blocks s kids) :
    Removed s kids (memfsFreeNode (s.detach d c place) c) (update kids d ((kids d).erase c)) c := by
  have hctree : s.InTree kids c := InTree.of_mem hc
  have hlive : (s.detach d c place).live = s.live := by cases place <;> rfl
  have hstrays : (s.detach d c place).strays = s.strays := by cases place <;> rfl
  have hfile : (s.detach d c place).file = s.file := by cases place <;> rfl
  have hfrees : ∀ n, (s.detach d c place).frees n = s.frees n :=
    fun n => frees_congr (identity_detach s d c n place)
  obtain ⟨hnodup, hmem, hfile', added, hadded, hnone⟩ := foldl_kfree_spec
    (s := s.detach d c place) (hb.distinct c hctree) (by rw [hlive]; exact hs.live c hctree)
    (by rw [hlive]; exact hb.nodup)
  have hsame : ∀ ptrs : List KPtr, SameTree (update kids d ((kids d).erase c))
      (s.detach d c place) (ptrs.foldl Vfs.kfree (s.detach d c place)) := by
    intro ptrs
    generalize s.detach d c place = t
    induction ptrs generalizing t with
    | nil => exact ⟨rfl, rfl, fun _ _ => rfl⟩
    | cons ptr ptrs ih => exact (sameTree_kfree ptr t _).trans (ih (t.kfree ptr))
  have hinTree : ∀ n, (memfsFreeNode (s.detach d c place) c).InTree
      (update kids d ((kids d).erase c)) n ↔ s.InTree kids n ∧ n ≠ c :=
    fun n => (hsame _).inTree.trans (hs.inTree_detach hc place)
  have hfrees' : ∀ n, s.InTree kids n → n ≠ c →
      (memfsFreeNode (s.detach d c place) c).frees n = s.frees n := by
    intro n hn hne
    have hn' := (hs.inTree_detach hc place).mpr ⟨hn, hne⟩
    rw [memfsFreeNode, frees_congr (congrArg identity ((hsame _).node n hn')), hfrees]
  rw [← hfrees] at hnodup hmem hfile' hadded
  rw [hlive] at hmem
  constructor
  case mem => exact hctree
  case live =>
    intro p hp howns
    refine (hmem p).mpr ⟨hp, ?_⟩
    rwa [hfrees]
  case gone =>
    intro h
    refine ((hmem c).mp h).2 ?_
    rw [hfrees]
    exact owns_self s c
  case strays =>
    rw [memfsFreeNode, hadded, hstrays, ← hnone]
    exact append_left_eq_self
  case file => exact hfile'.trans hfile
  case inTree => exact fun n hn hne => (hinTree n).mpr ⟨hn, hne⟩
  case unowned =>
    intro p hp n hn howns
    obtain ⟨hn', hne⟩ := (hinTree n).mp hn
    rw [Owns, hfrees' n hn' hne] at howns
    exact hp n hn' howns
  case blocks =>
    refine ⟨hnodup, fun n hn => ?_⟩
    obtain ⟨hn', hne⟩ := (hinTree n).mp hn
    rw [hfrees' n hn' hne]
    exact hb.distinct n hn'

end Shape

end Vfs

end MyOs
