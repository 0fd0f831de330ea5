import MyOs.Vfs.Populate

/-!
# The shape of the tree

What all the code that changes the tree relies on and keeps.  `Vfs.Shape ok s kids` says that the
list of children of each directory `d` is `kids d`, that the children point back to `d` and have
different names that satisfy `ok`, and that no block of memory belongs to two nodes of the tree.

The names come from different places, each with its own idea of a name, so `ok` is a parameter: the
calls with paths and the devices make names that are `PathName`s, while the archive decides about the
names of its entries.

A node that was just made is `Loose`: it shares no block with the tree.  `Shape.attach` adds a loose
node to the tree, `Shape.detach` makes a node of the tree loose, and freeing a loose node
(`Shape.freeNode`) leaves the tree alone.
-/

namespace MyOs

open Lib Function
open List hiding Chain

variable {ok : List UInt8 → Prop} {A : Allocator} {s s' : Vfs} {kids : ℕ → List ℕ} {c d n p : ℕ}
variable {name : List UInt8} {data : NodeData} {ptr : KPtr} {e : ℕ} {place : Option ℕ}

/-! ## One assignment -/

namespace Vfs

@[simp] lemma modify_root (s : Vfs) (m : ℕ) (f : VfsNode → VfsNode) : (s.modify m f).root = s.root :=
  rfl

@[simp] lemma modify_live (s : Vfs) (m : ℕ) (f : VfsNode → VfsNode) : (s.modify m f).live = s.live :=
  rfl

@[simp] lemma modify_self (s : Vfs) (m : ℕ) (f : VfsNode → VfsNode) :
    (s.modify m f).node m = f (s.node m) :=
  update_self ..

lemma modify_of_ne (s : Vfs) {m n : ℕ} (h : n ≠ m) (f : VfsNode → VfsNode) :
    (s.modify m f).node n = s.node n :=
  update_of_ne h ..

lemma modify_field {α : Type*} (g : VfsNode → α) {f : VfsNode → VfsNode} (hf : ∀ v, g (f v) = g v)
    (s : Vfs) (m n : ℕ) : g ((s.modify m f).node n) = g (s.node n) := by
  by_cases h : n = m
  · rw [h, modify_self, hf]
  · rw [modify_of_ne s h]

/-- The fields that say what a node is, without its place in the tree. -/
def identity (v : VfsNode) : List UInt8 × ℕ × NodeType × NodeData :=
  (v.name, v.namePtr, v.type, v.data)

/-- The fields that say where a node is, and how it is found there. -/
def links (v : VfsNode) : List UInt8 × NodeType × ℕ × ℕ × ℕ :=
  (v.name, v.type, v.parent, v.children, v.next)

lemma frees_congr (h : identity (s'.node n) = identity (s.node n)) : s'.frees n = s.frees n := by
  simp only [identity, Prod.mk.injEq] at h
  simp only [frees, h.2.1, h.2.2.1, h.2.2.2]

lemma identity_attach (s : Vfs) (d c n : ℕ) :
    identity ((s.attach d c).node n) = identity (s.node n) := by
  exact (modify_field identity (fun _ => by rfl) _ _ _).trans
    (modify_field identity (fun _ => by rfl) _ _ _)

lemma identity_detach (s : Vfs) (d c n : ℕ) (place : Option ℕ) :
    identity ((s.detach d c place).node n) = identity (s.node n) := by
  cases place <;> simp only [detach] <;>
    exact (modify_field identity (fun _ => by rfl) _ _ _).trans
      (modify_field identity (fun _ => by rfl) _ _ _)

/-! ## Nodes of the tree, and the blocks they own -/

/-- The root, and the nodes that are somebody's children. -/
def InTree (s : Vfs) (kids : ℕ → List ℕ) (n : ℕ) : Prop := n = s.root ∨ ∃ d, n ∈ kids d

/-- The block `p` is given back together with the node `n`. -/
def Owns (s : Vfs) (n p : ℕ) : Prop := .heap p ∈ s.frees n

lemma owns_self (s : Vfs) (n : ℕ) : s.Owns n n := by simp [Owns, frees]

/-- No node of the tree owns the block. -/
def Unowned (s : Vfs) (kids : ℕ → List ℕ) (p : ℕ) : Prop := ∀ n, s.InTree kids n → ¬ s.Owns n p

/-- The shape of the tree: `kids d` are the children of `d`, in the order of the list. -/
structure Shape (ok : List UInt8 → Prop) (s : Vfs) (kids : ℕ → List ℕ) : Prop where
  chain : ∀ d, s.InTree kids d → Chain s.nextOf (s.node d).children (kids d)
  closed : ∀ d, ∀ c ∈ kids d, s.InTree kids d
  parent : ∀ d, ∀ c ∈ kids d, (s.node c).parent = d
  dir : ∀ d, ∀ c ∈ kids d, (s.node d).type = .dir
  names : ∀ d, ((kids d).map fun c => (s.node c).name).Nodup
  named : ∀ d, ∀ c ∈ kids d, ok (s.node c).name
  live : ∀ n, s.InTree kids n → ∀ p, s.Owns n p → p ∈ s.live
  apart : ∀ n m, s.InTree kids n → s.InTree kids m → ∀ p, s.Owns n p → s.Owns m p → n = m
  null : 0 ∉ s.live
  cwd : s.cwd = s.root
  rootDir : (s.node s.root).type = .dir
  rootParent : (s.node s.root).parent = 0
  rootNext : (s.node s.root).next = 0

/-- A node outside the tree that shares no block with it. -/
structure Loose (s : Vfs) (kids : ℕ → List ℕ) (c : ℕ) : Prop where
  out : ¬ s.InTree kids c
  children : (s.node c).children = 0
  live : ∀ p, s.Owns c p → p ∈ s.live
  unowned : ∀ p, s.Owns c p → s.Unowned kids p

/-- The nodes of the tree are the same in both states. -/
structure SameTree (kids : ℕ → List ℕ) (s s' : Vfs) : Prop where
  root : s'.root = s.root
  cwd : s'.cwd = s.cwd
  node : ∀ n, s.InTree kids n → s'.node n = s.node n

end Vfs

open Vfs

lemma Vfs.InTree.of_mem (h : c ∈ kids d) : s.InTree kids c := Or.inr ⟨d, h⟩

namespace Vfs.SameTree

variable {s'' : Vfs}

lemma refl (kids : ℕ → List ℕ) (s : Vfs) : SameTree kids s s :=
  ⟨rfl, rfl, fun _ _ => rfl⟩

lemma inTree (h : SameTree kids s s') : s'.InTree kids n ↔ s.InTree kids n := by
  rw [InTree, InTree, h.root]

lemma owns (h : SameTree kids s s') (hn : s.InTree kids n) : s'.Owns n p ↔ s.Owns n p := by
  rw [Owns, Owns, frees_congr (congrArg identity (h.node n hn))]

lemma unowned (h : SameTree kids s s') (hp : s.Unowned kids p) : s'.Unowned kids p := by
  intro n hn howns
  have hn' := h.inTree.mp hn
  exact hp n hn' ((h.owns hn').mp howns)

lemma trans (h : SameTree kids s s') (h' : SameTree kids s' s'') : SameTree kids s s'' :=
  ⟨h'.root.trans h.root, h'.cwd.trans h.cwd, fun n hn =>
    (h'.node n (h.inTree.mpr hn)).trans (h.node n hn)⟩

end Vfs.SameTree

namespace Vfs.Shape

lemma sameTree_modify (hc : ¬ s.InTree kids c) (f : VfsNode → VfsNode) : SameTree kids s (s.modify c f) := by
  refine ⟨rfl, rfl, fun n hn => modify_of_ne s ?_ f⟩
  rintro rfl
  exact hc hn

lemma root_inTree (s : Vfs) (kids : ℕ → List ℕ) : s.InTree kids s.root := Or.inl rfl

lemma mem_live (hs : Shape ok s kids) (hn : s.InTree kids n) : n ∈ s.live :=
  hs.live n hn n (owns_self s n)

lemma ne_zero (hs : Shape ok s kids) (hn : s.InTree kids n) : n ≠ 0 := by
  rintro rfl
  exact hs.null (hs.mem_live hn)

/-- What leaves the links of the tree alone keeps the shape, if the blocks of the nodes are in use and
different ones afterwards. -/
lemma of_links (hs : Shape ok s kids) (hroot : s'.root = s.root) (hcwd : s'.cwd = s.cwd)
    (hlinks : ∀ n, s.InTree kids n → links (s'.node n) = links (s.node n))
    (hlive : ∀ n, s.InTree kids n → ∀ p, s'.Owns n p → p ∈ s'.live)
    (hapart : ∀ n m, s.InTree kids n → s.InTree kids m → ∀ p, s'.Owns n p → s'.Owns m p → n = m)
    (hnull : 0 ∉ s'.live) : Shape ok s' kids := by
  have hin : ∀ n, s'.InTree kids n ↔ s.InTree kids n := fun n => by rw [InTree, InTree, hroot]
  have hname : ∀ {n}, s.InTree kids n → (s'.node n).name = (s.node n).name :=
    fun hn => congrArg (·.1) (hlinks _ hn)
  have htype : ∀ {n}, s.InTree kids n → (s'.node n).type = (s.node n).type :=
    fun hn => congrArg (·.2.1) (hlinks _ hn)
  have hparent : ∀ {n}, s.InTree kids n → (s'.node n).parent = (s.node n).parent :=
    fun hn => congrArg (·.2.2.1) (hlinks _ hn)
  have hchildren : ∀ {n}, s.InTree kids n → (s'.node n).children = (s.node n).children :=
    fun hn => congrArg (·.2.2.2.1) (hlinks _ hn)
  have hnext : ∀ {n}, s.InTree kids n → s'.nextOf n = s.nextOf n :=
    fun hn => congrArg (·.2.2.2.2) (hlinks _ hn)
  have htop : s.InTree kids s.root := root_inTree s kids
  constructor
  case chain =>
    intro d hd
    rw [hchildren ((hin d).mp hd)]
    exact (hs.chain d ((hin d).mp hd)).congr fun c hc => hnext (InTree.of_mem hc)
  case closed => exact fun d c hc => (hin d).mpr (hs.closed d c hc)
  case parent => exact fun d c hc => (hparent (InTree.of_mem hc)).trans (hs.parent d c hc)
  case dir => exact fun d c hc => (htype (hs.closed d c hc)).trans (hs.dir d c hc)
  case names =>
    intro d
    rw [map_congr_left fun c hc => hname (InTree.of_mem hc)]
    exact hs.names d
  case named =>
    intro d c hc
    rw [hname (InTree.of_mem hc)]
    exact hs.named d c hc
  case live => exact fun n hn p hp => hlive n ((hin n).mp hn) p hp
  case apart => exact fun n m hn hm p => hapart n m ((hin n).mp hn) ((hin m).mp hm) p
  case null => exact hnull
  case cwd => rw [hcwd, hroot, hs.cwd]
  case rootDir => rw [hroot, htype htop, hs.rootDir]
  case rootParent => rw [hroot, hparent htop, hs.rootParent]
  case rootNext =>
    rw [hroot]
    exact (hnext htop).trans hs.rootNext

/-- What does not touch the nodes of the tree and leaves them their blocks keeps the shape. -/
lemma frame (hs : Shape ok s kids) (h : SameTree kids s s')
    (hlive : ∀ n, s.InTree kids n → ∀ p, s.Owns n p → p ∈ s'.live) (hnull : 0 ∉ s'.live) :
    Shape ok s' kids := by
  refine hs.of_links h.root h.cwd (fun n hn => congrArg links (h.node n hn)) (fun n hn p hp => ?_)
    (fun n m hn hm p hnp hmp => ?_) hnull
  · exact hlive n hn p ((h.owns hn).mp hp)
  · exact hs.apart n m hn hm p ((h.owns hn).mp hnp) ((h.owns hm).mp hmp)

/-! ## Finding a child -/

section

variable (hs : Shape ok s kids)
include hs

lemma nodup (d : ℕ) : (kids d).Nodup := (hs.names d).of_map

lemma length_le (d : ℕ) : (kids d).length ≤ s.live.length :=
  ((hs.nodup d).subperm fun _ hc => hs.mem_live (InTree.of_mem hc)).length_le

lemma kids_eq_nil (hd : ¬ s.InTree kids d) : kids d = [] :=
  eq_nil_iff_forall_not_mem.mpr fun c hc => hd (hs.closed d c hc)

lemma kids_eq_nil_of_not_dir (hd : (s.node d).type ≠ .dir) : kids d = [] :=
  eq_nil_iff_forall_not_mem.mpr fun c hc => hd (hs.dir d c hc)

lemma findChild_eq (hd : s.InTree kids d) (name : List UInt8) :
    vfsFindChild s d name = ((kids d).find? fun n => (s.node n).name == name).getD 0 := by
  rw [vfsFindChild]
  by_cases hdir : (s.node d).type = .dir
  · rw [if_neg (by simp [hdir, hs.ne_zero hd]), chainFind_eq (hs.chain d hd) _ (hs.length_le d)]
  · rw [if_pos (Or.inr hdir), hs.kids_eq_nil_of_not_dir hdir]
    rfl

lemma findChild_mem (hd : s.InTree kids d) (h : vfsFindChild s d name ≠ 0) :
    vfsFindChild s d name ∈ kids d := by
  rw [hs.findChild_eq hd] at h ⊢
  cases hfind : (kids d).find? fun n => (s.node n).name == name with
  | none => simp [hfind] at h
  | some c => exact mem_of_find?_eq_some hfind

lemma name_ne_of_findChild (hd : s.InTree kids d) (h : vfsFindChild s d name = 0) (hc : c ∈ kids d) :
    (s.node c).name ≠ name := by
  intro hname
  rw [hs.findChild_eq hd] at h
  cases hfind : (kids d).find? fun n => (s.node n).name == name with
  | none => simpa [hname] using find?_eq_none.mp hfind c hc
  | some k =>
    rw [hfind] at h
    exact hs.ne_zero (InTree.of_mem (mem_of_find?_eq_some hfind)) h

lemma findChild_eq_zero (hd : s.InTree kids d) (h : ∀ k ∈ kids d, (s.node k).name ≠ name) :
    vfsFindChild s d name = 0 := by
  have hnone : (kids d).find? (fun k => (s.node k).name == name) = none := by
    rw [find?_eq_none]
    intro k hk
    simpa using h k hk
  rw [hs.findChild_eq hd, hnone]
  rfl

lemma name_findChild (hd : s.InTree kids d) (h : vfsFindChild s d name ≠ 0) :
    (s.node (vfsFindChild s d name)).name = name := by
  rw [hs.findChild_eq hd] at h ⊢
  cases hfind : (kids d).find? fun n => (s.node n).name == name with
  | none => simp [hfind] at h
  | some k => simpa using find?_some hfind

lemma findChild_name (hc : c ∈ kids d) : vfsFindChild s d (s.node c).name = c := by
  have hd := hs.closed d c hc
  have hne : vfsFindChild s d (s.node c).name ≠ 0 := fun h => hs.name_ne_of_findChild hd h hc rfl
  exact inj_on_of_nodup_map (hs.names d) (hs.findChild_mem hd hne) hc (hs.name_findChild hd hne)

end

/-! ## Memory -/

lemma sameTree_kmalloc (A : Allocator) (s : Vfs) (kids : ℕ → List ℕ) :
    SameTree kids s (s.kmalloc A).2 :=
  ⟨rfl, rfl, fun _ _ => rfl⟩

lemma kmalloc_live (h : (s.kmalloc A).1 ≠ 0) :
    (s.kmalloc A).2.live = (s.kmalloc A).1 :: s.live :=
  if_neg h

lemma mem_kmalloc_live (h : p ∈ s.live) : p ∈ (s.kmalloc A).2.live := by
  simp only [Vfs.kmalloc]
  split_ifs
  · exact h
  · exact mem_cons_of_mem _ h

lemma kmalloc_mem_live (h : (s.kmalloc A).1 ≠ 0) : (s.kmalloc A).1 ∈ (s.kmalloc A).2.live := by
  rw [kmalloc_live h]
  exact mem_cons_self

lemma kmalloc (hs : Shape ok s kids) (A : Allocator) : Shape ok (s.kmalloc A).2 kids := by
  refine hs.frame (sameTree_kmalloc A s kids) (fun n hn p hp => mem_kmalloc_live (hs.live n hn p hp))
    ?_
  simp only [Vfs.kmalloc]
  split_ifs with h
  · exact hs.null
  · rw [mem_cons, not_or]
    exact ⟨Ne.symm h, hs.null⟩

lemma unowned_of_not_mem (hs : Shape ok s kids) (hp : p ∉ s.live) : s.Unowned kids p :=
  fun n hn howns => hp (hs.live n hn p howns)

lemma kmalloc_unowned (hs : Shape ok s kids) (A : Allocator) : s.Unowned kids (s.kmalloc A).1 :=
  hs.unowned_of_not_mem (A.fresh _ _)

lemma record_fresh (hs : Shape ok s kids) (h : (s.kmalloc A).1 ≠ 0)
    (hdata : ∀ p, .heap p ∈ data.frees → p = (s.kmalloc A).1) :
    ∀ p, .heap p ∈ data.frees →
      p ∈ (s.kmalloc A).2.live ∧ (s.kmalloc A).2.Unowned kids p ∧ p ∉ s.live := by
  intro p hp
  rw [hdata p hp]
  exact ⟨kmalloc_mem_live h, (sameTree_kmalloc A s kids).unowned (hs.kmalloc_unowned A), A.fresh _ _⟩

lemma record_unowned (hs : Shape ok s kids) (h : (s.kmalloc A).1 ≠ 0)
    (hdata : ∀ p, .heap p ∈ data.frees → p = (s.kmalloc A).1) :
    ∀ p, .heap p ∈ data.frees → p ∈ (s.kmalloc A).2.live ∧ (s.kmalloc A).2.Unowned kids p :=
  fun p hp => (hs.record_fresh h hdata p hp).imp_right And.left

lemma kfree_heap (h : p ∈ s.live) : s.kfree (.heap p) = { s with live := s.live.erase p } := if_pos h

lemma kfree_eq (s : Vfs) (ptr : KPtr) :
    (s.kfree ptr).node = s.node ∧ (s.kfree ptr).file = s.file ∧ (s.kfree ptr).root = s.root ∧
      (s.kfree ptr).cwd = s.cwd := by
  cases ptr with
  | heap p =>
    rw [Vfs.kfree]
    split_ifs <;> exact ⟨rfl, rfl, rfl, rfl⟩
  | archive off => exact ⟨rfl, rfl, rfl, rfl⟩

lemma mem_kfree (h : n ∈ s.live) (hne : ptr ≠ .heap n) : n ∈ (s.kfree ptr).live := by
  cases ptr with
  | heap p =>
    rw [Vfs.kfree]
    split_ifs
    · exact (mem_erase_of_ne fun heq => hne (congrArg KPtr.heap heq.symm)).mpr h
    · exact h
  | archive off => exact h

lemma mem_of_mem_kfree (h : n ∈ (s.kfree ptr).live) : n ∈ s.live := by
  cases ptr with
  | heap p =>
    rw [Vfs.kfree] at h
    split_ifs at h
    · exact mem_of_mem_erase h
    · exact h
  | archive off => exact h

lemma sameTree_kfree (ptr : KPtr) (s : Vfs) (kids : ℕ → List ℕ) : SameTree kids s (s.kfree ptr) := by
  obtain ⟨hnode, -, hroot, hcwd⟩ := kfree_eq s ptr
  exact ⟨hroot, hcwd, fun n _ => congrFun hnode n⟩

lemma kfree (hs : Shape ok s kids) (hptr : ∀ p, ptr = .heap p → s.Unowned kids p) :
    Shape ok (s.kfree ptr) kids := by
  refine hs.frame (sameTree_kfree ptr s kids) (fun n hn p hp => mem_kfree (hs.live n hn p hp) ?_)
    fun h => hs.null (mem_of_mem_kfree h)
  exact fun heq => hptr p heq n hn hp

lemma foldl_kfree {ptrs : List KPtr} (hs : Shape ok s kids)
    (hptrs : ∀ p, .heap p ∈ ptrs → s.Unowned kids p) : Shape ok (ptrs.foldl Vfs.kfree s) kids := by
  induction ptrs generalizing s with
  | nil => exact hs
  | cons ptr ptrs ih =>
    refine ih (hs.kfree ?_) fun p hp => (sameTree_kfree ptr s kids).unowned ?_
    · rintro p rfl
      exact hptrs p mem_cons_self
    · exact hptrs p (mem_cons_of_mem _ hp)

lemma freeNode (hs : Shape ok s kids) (hc : Loose s kids c) : Shape ok (memfsFreeNode s c) kids :=
  hs.foldl_kfree hc.unowned

/-! ## New nodes -/

lemma createNode (hs : Shape ok s kids) {type : NodeType} {ops : NodeOps}
    (hdata : ∀ p, .heap p ∈ data.frees → p ∈ s.live ∧ s.Unowned kids p) {r : ℕ × Vfs}
    (hr : vfsCreateNode A s name type ops data = r) :
    Shape ok r.2 kids ∧ SameTree kids s r.2 ∧
      (r.1 ≠ 0 → Loose r.2 kids r.1 ∧ (r.2.node r.1).name = name) := by
  subst hr
  have hs1 := hs.kmalloc A
  have hs2 := hs1.kmalloc A
  have hsame := (sameTree_kmalloc A s kids).trans (sameTree_kmalloc A (s.kmalloc A).2 kids)
  have hnode := hs.kmalloc_unowned A
  simp only [vfsCreateNode]
  split_ifs with h1 h2
  · exact ⟨hs1, sameTree_kmalloc A s kids, fun h => absurd h1 h⟩
  · dsimp only
    refine ⟨hs2.kfree ?_, hsame.trans (sameTree_kfree (.heap _) _ kids), fun h => absurd rfl h⟩
    rintro p heq
    cases heq
    exact hsame.unowned hnode
  · -- the node is written to a block of nobody
    set q := (s.kmalloc A).2.kmalloc A with hq
    set v : VfsNode := ⟨name, q.1, type, 0, data, ops, 0, 0, 0⟩ with hv
    have hout : ¬ s.InTree kids (s.kmalloc A).1 := fun h => hnode _ h (owns_self s _)
    have hwrite : SameTree kids s (q.2.modify (s.kmalloc A).1 fun _ => v) := by
      refine ⟨hsame.root, hsame.cwd, fun n hn => ?_⟩
      have hne : n ≠ (s.kmalloc A).1 := fun h => hout (h ▸ hn)
      rw [modify_of_ne _ hne]
      exact hsame.node n hn
    -- each of its blocks is in use and nobody's
    have hblocks : ∀ p, (q.2.modify (s.kmalloc A).1 fun _ => v).Owns (s.kmalloc A).1 p →
        p ∈ q.2.live ∧ s.Unowned kids p := by
      intro p hp
      simp only [Owns, frees, modify_self, mem_append, mem_cons, not_mem_nil,
        or_false, KPtr.heap.injEq] at hp
      rcases hp with hp | rfl | rfl
      · split_ifs at hp with hfile
        · obtain ⟨hlive, hun⟩ := hdata p hp
          exact ⟨mem_kmalloc_live (mem_kmalloc_live hlive), hun⟩
        · cases hp
      · refine ⟨kmalloc_mem_live h2, hs.unowned_of_not_mem fun h => ?_⟩
        exact A.fresh _ _ (mem_kmalloc_live (A := A) h)
      · exact ⟨mem_kmalloc_live (kmalloc_mem_live h1), hnode⟩
    refine ⟨hs.frame hwrite (fun n hn p hp => mem_kmalloc_live (mem_kmalloc_live (hs.live n hn p hp)))
      hs2.null, hwrite, fun _ => ⟨⟨?_, ?_, ?_, ?_⟩, ?_⟩⟩
    · exact fun h => hout (hwrite.inTree.mp h)
    · rw [modify_self]
    · exact fun p hp => (hblocks p hp).1
    · exact fun p hp => hwrite.unowned (hblocks p hp).2
    · rw [modify_self]

/-! ## Adding a child -/

lemma attach_parent (s : Vfs) {d c n : ℕ} (h : n ≠ c) :
    ((s.attach d c).node n).parent = (s.node n).parent := by
  exact (modify_field VfsNode.parent (fun _ => by rfl) _ d n).trans (congrArg _ (modify_of_ne s h _))

lemma attach_next (s : Vfs) {d c n : ℕ} (h : n ≠ c) : (s.attach d c).nextOf n = s.nextOf n := by
  exact (modify_field VfsNode.next (fun _ => by rfl) _ d n).trans (congrArg _ (modify_of_ne s h _))

lemma attach_children (s : Vfs) {d c n : ℕ} (h : n ≠ d) :
    ((s.attach d c).node n).children = (s.node n).children := by
  exact (congrArg _ (modify_of_ne _ h _)).trans
    (modify_field VfsNode.children (fun _ => by rfl) s c n)

lemma mem_update_cons : n ∈ update kids d (c :: kids d) e ↔ e = d ∧ n = c ∨ n ∈ kids e := by
  by_cases he : e = d
  · subst he
    simp
  · simp [he]

lemma inTree_attach :
    (s.attach d c).InTree (update kids d (c :: kids d)) n ↔ n = c ∨ s.InTree kids n := by
  simp only [InTree, mem_update_cons]
  constructor
  · rintro (h | ⟨e, ⟨_, rfl⟩ | h⟩)
    · exact Or.inr (Or.inl h)
    · exact Or.inl rfl
    · exact Or.inr (Or.inr ⟨e, h⟩)
  · rintro (rfl | h | ⟨e, h⟩)
    · exact Or.inr ⟨d, Or.inl ⟨rfl, rfl⟩⟩
    · exact Or.inl h
    · exact Or.inr ⟨e, Or.inr h⟩

lemma attach (hs : Shape ok s kids) (hd : s.InTree kids d) (hdir : (s.node d).type = .dir)
    (hc : Loose s kids c) (hnull : c ≠ 0) (hok : ok (s.node c).name)
    (hnew : ∀ k ∈ kids d, (s.node k).name ≠ (s.node c).name) :
    Shape ok (s.attach d c) (update kids d (c :: kids d)) := by
  have hcd : c ≠ d := fun h => hc.out (h ▸ hd)
  have hne : ∀ {n : ℕ}, s.InTree kids n → n ≠ c := fun hn h => hc.out (h ▸ hn)
  have hkid : ∀ {e n : ℕ}, n ∈ kids e → n ≠ c := fun h => hne (InTree.of_mem h)
  have hid := identity_attach s d c
  have hname : ∀ n, ((s.attach d c).node n).name = (s.node n).name := fun n => congrArg (·.1) (hid n)
  have htype : ∀ n, ((s.attach d c).node n).type = (s.node n).type :=
    fun n => congrArg (·.2.2.1) (hid n)
  have howns : ∀ n p, (s.attach d c).Owns n p ↔ s.Owns n p := fun n p => by
    rw [Owns, Owns, frees_congr (hid n)]
  constructor
  case chain =>
    intro e he
    rcases inTree_attach.mp he with rfl | he
    · -- the new child has no children
      rw [update_of_ne hcd, hs.kids_eq_nil hc.out, attach_children s hcd]
      exact hc.children
    have hrest : Chain (s.attach d c).nextOf (s.node e).children (kids e) :=
      (hs.chain e he).congr fun k hk => attach_next s (hkid hk)
    by_cases hed : e = d
    · subst hed
      rw [update_self]
      refine ⟨by simp [Vfs.attach], hnull, ?_⟩
      have hnext : (s.attach e c).nextOf c = (s.node e).children := by
        rw [nextOf, Vfs.attach, modify_of_ne _ hcd, modify_self]
      rwa [hnext]
    · rwa [update_of_ne hed, attach_children s hed]
  case closed =>
    intro e n hn
    rcases mem_update_cons.mp hn with ⟨rfl, _⟩ | hn
    · exact inTree_attach.mpr (Or.inr hd)
    · exact inTree_attach.mpr (Or.inr (hs.closed e n hn))
  case parent =>
    intro e n hn
    rcases mem_update_cons.mp hn with ⟨rfl, rfl⟩ | hn
    · rw [Vfs.attach, modify_of_ne _ hcd, modify_self]
    · rw [attach_parent s (hkid hn)]
      exact hs.parent e n hn
  case dir =>
    intro e n hn
    rw [htype]
    rcases mem_update_cons.mp hn with ⟨rfl, _⟩ | hn
    · exact hdir
    · exact hs.dir e n hn
  case names =>
    intro e
    simp only [hname]
    by_cases hed : e = d
    · subst hed
      rw [update_self, map_cons, nodup_cons]
      refine ⟨?_, hs.names e⟩
      simpa using hnew
    · rw [update_of_ne hed]
      exact hs.names e
  case named =>
    intro e n hn
    rw [hname]
    rcases mem_update_cons.mp hn with ⟨_, rfl⟩ | hn
    · exact hok
    · exact hs.named e n hn
  case live =>
    intro n hn p hp
    rw [howns] at hp
    rcases inTree_attach.mp hn with rfl | hn
    · exact hc.live p hp
    · exact hs.live n hn p hp
  case apart =>
    intro n m hn hm p hnp hmp
    rw [howns] at hnp hmp
    rcases inTree_attach.mp hn with rfl | hn' <;> rcases inTree_attach.mp hm with rfl | hm'
    · rfl
    · exact absurd hmp (hc.unowned p hnp m hm')
    · exact absurd hnp (hc.unowned p hmp n hn')
    · exact hs.apart n m hn' hm' p hnp hmp
  case null => exact hs.null
  case cwd => exact hs.cwd
  case rootDir => exact (htype _).trans hs.rootDir
  case rootParent => exact (attach_parent s (hne (root_inTree s kids))).trans hs.rootParent
  case rootNext => exact (attach_next s (hne (root_inTree s kids))).trans hs.rootNext

/-! ## Removing a child -/

lemma ne_root (hs : Shape ok s kids) (hc : c ∈ kids d) : c ≠ s.root := by
  rintro rfl
  exact hs.ne_zero (hs.closed d _ hc) ((hs.parent d _ hc).symm.trans hs.rootParent)

lemma dir_unique (hs : Shape ok s kids) (h : n ∈ kids d) (h' : n ∈ kids e) : d = e :=
  (hs.parent d n h).symm.trans (hs.parent e n h')

lemma mem_update_erase (hs : Shape ok s kids) (hc : c ∈ kids d) :
    n ∈ update kids d ((kids d).erase c) e ↔ n ∈ kids e ∧ n ≠ c := by
  by_cases he : e = d
  · subst he
    rw [update_self, (hs.nodup e).mem_erase_iff, and_comm]
  · rw [update_of_ne he]
    refine ⟨fun h => ⟨h, ?_⟩, And.left⟩
    rintro rfl
    exact he (hs.dir_unique h hc)

lemma inTree_detach (hs : Shape ok s kids) (hc : c ∈ kids d) (place : Option ℕ) :
    (s.detach d c place).InTree (update kids d ((kids d).erase c)) n ↔
      s.InTree kids n ∧ n ≠ c := by
  have hroot : (s.detach d c place).root = s.root := by cases place <;> rfl
  simp only [InTree, hs.mem_update_erase hc, hroot]
  constructor
  · rintro (rfl | ⟨e, h, hne⟩)
    · exact ⟨Or.inl rfl, (hs.ne_root hc).symm⟩
    · exact ⟨Or.inr ⟨e, h⟩, hne⟩
  · rintro ⟨rfl | ⟨e, h⟩, hne⟩
    · exact Or.inl rfl
    · exact Or.inr ⟨e, h, hne⟩

lemma detach_parent (s : Vfs) {d c n : ℕ} (h : n ≠ c) (place : Option ℕ) :
    ((s.detach d c place).node n).parent = (s.node n).parent := by
  cases place <;> simp only [Vfs.detach, modify_of_ne _ h] <;>
    exact modify_field VfsNode.parent (fun _ => by rfl) s _ n

lemma detach_children (s : Vfs) {d c n : ℕ} (h : n ≠ d) (place : Option ℕ) :
    ((s.detach d c place).node n).children = (s.node n).children := by
  cases place <;> simp only [Vfs.detach] <;>
    refine (modify_field VfsNode.children (fun _ => by rfl) _ c n).trans ?_
  · rw [modify_of_ne s h]
  · exact modify_field VfsNode.children (fun _ => by rfl) s _ n

lemma detach_next (s : Vfs) {d c n : ℕ} (h : n ≠ c) (hplace : place ≠ some n) :
    (s.detach d c place).nextOf n = s.nextOf n := by
  cases place with
  | none =>
    rw [nextOf, Vfs.detach, modify_of_ne _ h]
    exact modify_field VfsNode.next (fun _ => by rfl) s d n
  | some q =>
    have hq : n ≠ q := fun h => hplace (by rw [h])
    rw [nextOf, Vfs.detach, modify_of_ne _ h, modify_of_ne _ hq, nextOf]

lemma chain_detach (hs : Shape ok s kids) (hc : c ∈ kids d) (hcd : c ≠ d)
    (hplace : chainCell s.nextOf c s.live.length none (s.node d).children = some place) :
    (∀ q, place = some q → q ∈ kids d) ∧
      Chain (s.detach d c place).nextOf ((s.detach d c place).node d).children
        ((kids d).erase c) := by
  have hne : ∀ k ∈ (kids d).erase c, k ≠ c := fun k hk => ((hs.nodup d).mem_erase_iff.mp hk).1
  rcases chainCell_spec (hs.chain d (hs.closed d c hc)) (hs.nodup d) hc (hs.length_le d) none with
    ⟨_, hcell, hchain⟩ | ⟨_, q, hq, hqc, hcell, hchain⟩
  · cases hplace.symm.trans hcell
    refine ⟨by rintro q ⟨⟩, ?_⟩
    have hhead : ((s.detach d c none).node d).children = s.nextOf c := by
      rw [Vfs.detach, modify_of_ne _ hcd.symm, modify_self]
    rw [hhead]
    exact hchain.congr fun k hk => detach_next s (hne k hk) (by simp)
  · cases hplace.symm.trans hcell
    refine ⟨by rintro q ⟨⟩; exact hq, ?_⟩
    have hhead : ((s.detach d c (some q)).node d).children = (s.node d).children := by
      rw [Vfs.detach, modify_of_ne _ hcd.symm]
      exact modify_field VfsNode.children (fun _ => by rfl) s q d
    rw [hhead]
    refine hchain.congr fun k hk => ?_
    by_cases hkq : k = q
    · rw [hkq, update_self, nextOf, Vfs.detach, modify_of_ne _ hqc, modify_self]
    · rw [update_of_ne hkq]
      exact detach_next s (hne k hk) fun h => hkq (Option.some.inj h).symm

lemma detach (hs : Shape ok s kids) (hc : c ∈ kids d) (hnil : kids c = [])
    (hplace : chainCell s.nextOf c s.live.length none (s.node d).children = some place) :
    Shape ok (s.detach d c place) (update kids d ((kids d).erase c)) ∧
      Loose (s.detach d c place) (update kids d ((kids d).erase c)) c := by
  have hcd : c ≠ d := by
    rintro rfl
    rw [hnil] at hc
    cases hc
  obtain ⟨hat, hchain⟩ := hs.chain_detach hc hcd hplace
  have hid : ∀ n, identity ((s.detach d c place).node n) = identity (s.node n) :=
    fun n => identity_detach s d c n place
  have hname : ∀ n, ((s.detach d c place).node n).name = (s.node n).name :=
    fun n => congrArg (·.1) (hid n)
  have htype : ∀ n, ((s.detach d c place).node n).type = (s.node n).type :=
    fun n => congrArg (·.2.2.1) (hid n)
  have howns : ∀ n p, (s.detach d c place).Owns n p ↔ s.Owns n p := fun n p => by
    rw [Owns, Owns, frees_congr (hid n)]
  have hlive : (s.detach d c place).live = s.live := by cases place <;> rfl
  have hroot : (s.detach d c place).root = s.root := by cases place <;> rfl
  have hcwd : (s.detach d c place).cwd = s.cwd := by cases place <;> rfl
  have hcroot := (hs.ne_root hc).symm
  have hctree : s.InTree kids c := InTree.of_mem hc
  refine ⟨?_, ?_⟩
  · constructor
    case chain =>
      intro e he
      obtain ⟨he', hne⟩ := (hs.inTree_detach hc place).mp he
      by_cases hed : e = d
      · subst hed
        rwa [update_self]
      · -- the siblings of another directory are neither the child nor the changed place
        rw [update_of_ne hed, detach_children s hed]
        refine (hs.chain e he').congr fun k hk => detach_next s ?_ fun h => ?_
        · rintro rfl
          exact hed (hs.dir_unique hk hc)
        · exact hed (hs.dir_unique hk (hat k h))
    case closed =>
      intro e n hn
      obtain ⟨hn', _⟩ := (hs.mem_update_erase hc).mp hn
      refine (hs.inTree_detach hc place).mpr ⟨hs.closed e n hn', ?_⟩
      rintro rfl
      rw [hnil] at hn'
      cases hn'
    case parent =>
      intro e n hn
      obtain ⟨hn', hne⟩ := (hs.mem_update_erase hc).mp hn
      rw [detach_parent s hne]
      exact hs.parent e n hn'
    case dir =>
      intro e n hn
      rw [htype]
      exact hs.dir e n ((hs.mem_update_erase hc).mp hn).1
    case names =>
      intro e
      simp only [hname]
      by_cases hed : e = d
      · subst hed
        rw [update_self]
        exact (hs.names e).sublist (erase_sublist.map _)
      · rw [update_of_ne hed]
        exact hs.names e
    case named =>
      intro e n hn
      rw [hname]
      exact hs.named e n ((hs.mem_update_erase hc).mp hn).1
    case live =>
      intro n hn p hp
      rw [hlive]
      exact hs.live n ((hs.inTree_detach hc place).mp hn).1 p ((howns n p).mp hp)
    case apart =>
      intro n m hn hm p hnp hmp
      exact hs.apart n m ((hs.inTree_detach hc place).mp hn).1 ((hs.inTree_detach hc place).mp hm).1 p
        ((howns n p).mp hnp) ((howns m p).mp hmp)
    case null => rw [hlive]; exact hs.null
    case cwd => rw [hcwd, hroot, hs.cwd]
    case rootDir => rw [hroot, htype, hs.rootDir]
    case rootParent => rw [hroot, detach_parent s hcroot, hs.rootParent]
    case rootNext =>
      have hplace' : place ≠ some s.root := fun h => hs.ne_root (hat _ h) rfl
      have hnext := detach_next (d := d) s hcroot hplace'
      rw [hroot]
      exact hnext.trans hs.rootNext
  · constructor
    case out => exact fun h => ((hs.inTree_detach hc place).mp h).2 rfl
    case children =>
      have := hs.chain c hctree
      rw [hnil] at this
      rw [detach_children s hcd]
      exact this
    case live =>
      intro p hp
      rw [hlive]
      exact hs.live c hctree p ((howns c p).mp hp)
    case unowned =>
      intro p hp n hn hnp
      obtain ⟨hn', hne⟩ := (hs.inTree_detach hc place).mp hn
      exact hne (hs.apart n c hn' hctree p ((howns n p).mp hnp) ((howns c p).mp hp))

end Vfs.Shape

end MyOs
