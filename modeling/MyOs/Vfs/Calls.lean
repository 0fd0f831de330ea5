import MyOs.Lib.Runs
import MyOs.Vfs.Growth
import Mathlib.Data.List.TakeWhile

/-!
# What the calls keep

Every call that changes the tree, every entry of an archive and the set-up of the devices keep the
shape of the tree (`HasShape.step`, `HasShape.populate`).  What it takes is that the names that can be
made satisfy the condition `ok` on names.  Calls with a path and `devfs_init` make only names that a
path can contain (`PathName`): the part after the last slash, not longer than `VFS_NAME_MAX`, neither
empty nor `.` nor `..`.  The names that come from an archive are the parts of its paths
(`entryParts`), of which only the length is checked.
-/

namespace MyOs

open Lib Vfs
open List hiding Chain

variable {ok : List UInt8 → Prop} {A : Allocator} {s s' : Vfs} {kids : ℕ → List ℕ} {c d n p : ℕ}
variable {name path : List UInt8}

/-- A name by which `vfs_resolve` can look for a child. -/
structure PathName (name : List UInt8) : Prop where
  ne_nil : name ≠ []
  ne_dot : name ≠ [dot]
  ne_dotDot : name ≠ [dot, dot]
  length_le : name.length ≤ vfsNameMax
  noSlash : slash ∉ name

/-- There are lists of children that give the tree its shape. -/
def Vfs.HasShape (ok : List UInt8 → Prop) (s : Vfs) : Prop := ∃ kids, Shape ok s kids

lemma Vfs.Extends.hasShape (h : Extends ok s kids s') : HasShape ok s' := by
  obtain ⟨kids', hs, -⟩ := h
  exact ⟨kids', hs⟩

/-! ## Adding and removing -/

namespace Vfs.Shape

lemma extends_self (hs : Shape ok s kids) : Extends ok s kids s := ⟨kids, hs, Grown.refl s kids⟩

lemma release (hs : Shape ok s kids) {data : NodeData}
    (hdata : ∀ p, .heap p ∈ data.frees → s.Unowned kids p) : Shape ok (data.release s) kids := by
  have hfree : ∀ addr, .heap addr ∈ data.frees → Shape ok (s.kfree (.heap addr)) kids := by
    refine fun addr haddr => hs.kfree ?_
    rintro p ⟨⟩
    exact hdata addr haddr
  cases data with
  | null => exact hs
  | memfs addr file =>
    refine hfree addr ?_
    rw [NodeData.frees]
    split_ifs <;> simp
  | tarfs addr file => exact hfree addr (by simp [NodeData.frees])

/-- What adding a child with a name to the directory `d` can come to, for the state `s` and the blocks that
were in use in `s0`: nothing that shows, or one child more, the first. -/
def AddsChild (ok : List UInt8 → Prop) (kids : ℕ → List ℕ) (s0 s : Vfs) (d : ℕ) (name : List UInt8)
    (r : Option ℕ × Vfs) : Prop :=
  (r.1 = none ∧ Shape ok r.2 kids ∧ Grown s0 kids r.2 kids ∧ SameTree kids s r.2) ∨
    ∃ c, r.1 = some c ∧ Shape ok r.2 (Function.update kids d (c :: kids d)) ∧
      Grown s0 kids r.2 (Function.update kids d (c :: kids d)) ∧
      (∀ k ∈ kids d, (s.node k).name ≠ name) ∧ r.2.root = s.root ∧ (r.2.node c).name = name ∧
      ∀ n, s.InTree kids n → identity (r.2.node n) = identity (s.node n)

lemma addNode {s0 : Vfs} (hgrown : Grown s0 kids s kids) (hs : Shape ok s kids) (hd : s.InTree kids d)
    (hdir : (s.node d).type = .dir) (hok : ok name) (hunused : ∀ k ∈ kids d, (s.node k).name ≠ name)
    {type : NodeType} {ops : NodeOps} {data : NodeData} (hnodup : data.frees.Nodup)
    (hdata : ∀ p, .heap p ∈ data.frees → p ∈ s.live ∧ s.Unowned kids p ∧ p ∉ s0.live) :
    AddsChild ok kids s0 s d name (memfsAddNode A s d name type ops data) := by
  rw [memfsAddNode]
  generalize hr : vfsCreateNode A s name type ops data = r
  obtain ⟨hs', hsame, hgrown', hnew⟩ := newNode hgrown hs hnodup hdata hr
  by_cases hnull : r.1 = 0
  · rw [if_pos hnull]
    refine Or.inl ⟨rfl, hs'.release fun p hp => hsame.unowned (hdata p hp).2.1,
      hgrown'.release fun p hp => ?_, hsame.trans ?_⟩
    · exact ⟨(hs.grown_createNode hr).live p (hdata p hp).1, (hdata p hp).2.2⟩
    · cases data with
      | null => exact SameTree.refl kids r.2
      | memfs addr file => exact sameTree_kfree (.heap addr) r.2 kids
      | tarfs addr file => exact sameTree_kfree (.heap addr) r.2 kids
  · rw [if_neg hnull]
    obtain ⟨hfresh, hname⟩ := hnew hnull
    obtain ⟨hadd, hs''⟩ := hs'.addChild_new hsame hfresh.toLoose hnull hname hok hd hdir hunused
    rw [hadd]
    refine Or.inr ⟨r.1, rfl, hs'', hgrown'.attach hfresh, hunused, hsame.root, ?_, fun n hn => ?_⟩
    · exact (congrArg (·.1) (identity_attach r.2 d r.1 r.1)).trans hname
    · rw [identity_attach, hsame.node n hn]

lemma create_cases (hs : Shape ok s kids) (hd : s.InTree kids d) (hok : ok name) (type : NodeType) :
    AddsChild ok kids s s d name (memfsCreate A s d name type) := by
  have hself : AddsChild ok kids s s d name (none, s) :=
    Or.inl ⟨rfl, hs, Grown.refl s kids, SameTree.refl kids s⟩
  rw [memfsCreate]
  split_ifs with hnull hfind htype
  · exact hself
  · exact hself
  all_goals
    have hdir : (s.node d).type = .dir := not_not.mp fun h => hnull (Or.inr h)
    have hunused : ∀ k ∈ kids d, (s.node k).name ≠ name :=
      fun k hk => hs.name_ne_of_findChild hd (not_not.mp hfind) hk
  · exact addNode (Grown.refl s kids) hs hd hdir hok hunused (by simp [NodeData.frees])
      (by simp [NodeData.frees])
  · have hs' := hs.kmalloc A
    have hsame := sameTree_kmalloc A s kids
    dsimp only
    split_ifs with hfile
    · exact Or.inl ⟨rfl, hs', Grown.kmalloc A s kids, hsame⟩
    · refine (addNode (Grown.kmalloc A s kids) hs' hd hdir hok hunused (by simp [NodeData.frees])
        (hs.record_fresh hfile (by simp [NodeData.frees]))).imp_left ?_
      rintro ⟨hnone, hs'', hgrown, hsame'⟩
      exact ⟨hnone, hs'', hgrown, hsame.trans hsame'⟩

lemma create (hs : Shape ok s kids) (hd : s.InTree kids d) (hok : ok name) (type : NodeType) :
    Extends ok s kids (memfsCreate A s d name type).2 := by
  rcases hs.create_cases hd hok type with ⟨-, hs', hgrown, -⟩ | ⟨c, -, hs', hgrown, -⟩
  · exact ⟨kids, hs', hgrown⟩
  · exact ⟨_, hs', hgrown⟩

lemma unlink_eq (hs : Shape ok s kids) (hd : s.InTree kids d) (h : memfsUnlink s d name = some s') :
    ∃ c place, c ∈ kids d ∧ (s.node c).name = name ∧ kids c = [] ∧
      chainCell s.nextOf c s.live.length none (s.node d).children = some place ∧
      s' = memfsFreeNode (s.detach d c place) c := by
  simp only [memfsUnlink] at h
  split_ifs at h with hdir hfind hempty
  obtain ⟨s'', hremove, rfl⟩ := Option.map_eq_some_iff.mp h
  simp only [vfsRemoveChild] at hremove
  split_ifs at hremove
  obtain ⟨place, hplace, rfl⟩ := Option.map_eq_some_iff.mp hremove
  have hc := hs.findChild_mem hd hfind
  refine ⟨_, place, hc, hs.name_findChild hd hfind, ?_, hplace, rfl⟩
  by_cases htype : (s.node (vfsFindChild s d name)).type = .dir
  · have hnone : (s.node (vfsFindChild s d name)).children = 0 :=
      not_not.mp fun h => hempty ⟨htype, h⟩
    exact (hs.chain _ (InTree.of_mem hc)).eq_nil hnone
  · exact hs.kids_eq_nil_of_not_dir htype

lemma unlink (hs : Shape ok s kids) (hd : s.InTree kids d) (h : memfsUnlink s d name = some s') :
    ∃ kids', Shape ok s' kids' ∧ (Blocks s kids → Removed s kids s' kids' (vfsFindChild s d name)) := by
  obtain ⟨c, place, hc, rfl, hnil, hplace, rfl⟩ := hs.unlink_eq hd h
  obtain ⟨hs', hloose⟩ := hs.detach hc hnil hplace
  rw [hs.findChild_name hc]
  exact ⟨_, hs'.freeNode hloose, hs.removed hc place⟩

/-! ## Paths -/

lemma resolvePart_inTree (hs : Shape ok s kids) (hn : s.InTree kids n) {seg : List UInt8}
    (h : resolvePart s n seg ≠ 0) : s.InTree kids (resolvePart s n seg) := by
  rw [resolvePart] at h ⊢
  split_ifs at h ⊢ with hdot hdots hparent hpos hlong
  · exact hn
  · -- only the root has no parent
    rcases hn with rfl | ⟨d, hn⟩
    · exact absurd hs.rootParent hparent
    · rw [hs.parent d n hn]
      exact hs.closed d n hn
  · exact hn
  · exact absurd rfl h
  · exact InTree.of_mem (hs.findChild_mem hn h)
  · exact hn

lemma resolveLoop_inTree (hs : Shape ok s kids) (fuel : ℕ) (hn : s.InTree kids n) {p : List UInt8}
    (h : resolveLoop s fuel n p ≠ 0) : s.InTree kids (resolveLoop s fuel n p) := by
  induction fuel generalizing n p with
  | zero => exact hn
  | succ fuel ih =>
    simp only [resolveLoop] at h ⊢
    split_ifs at h ⊢ with hnil hnext
    · exact hn
    · exact absurd rfl h
    · exact ih (hs.resolvePart_inTree hn hnext) h

lemma resolve_inTree (hs : Shape ok s kids) (h : vfsResolve s path s.cwd ≠ 0) :
    s.InTree kids (vfsResolve s path s.cwd) := by
  simp only [vfsResolve, hs.cwd, ite_self] at h ⊢
  split_ifs at h ⊢
  · exact absurd rfl h
  · exact hs.resolveLoop_inTree _ (root_inTree s kids) h
  · exact hs.resolveLoop_inTree _ (root_inTree s kids) h

end Vfs.Shape

lemma slash_not_mem_of_lastSlash_eq_none {l : List UInt8} (h : lastSlash l = none) : slash ∉ l := by
  induction l with
  | nil => simp
  | cons x xs ih =>
    simp only [lastSlash] at h
    cases hxs : lastSlash xs with
    | some i => simp [hxs] at h
    | none =>
      simp only [hxs, ite_eq_right_iff, reduceCtorEq, imp_false] at h
      rw [mem_cons, not_or]
      exact ⟨Ne.symm h, ih hxs⟩

lemma slash_not_mem_drop_lastSlash {l : List UInt8} {i : ℕ} (h : lastSlash l = some i) :
    slash ∉ l.drop (i + 1) := by
  induction l generalizing i with
  | nil => cases h
  | cons x xs ih =>
    simp only [lastSlash] at h
    cases hxs : lastSlash xs with
    | some j =>
      simp only [hxs, Option.some.injEq] at h
      subst h
      exact ih hxs
    | none =>
      simp only [hxs] at h
      split_ifs at h
      cases h
      exact slash_not_mem_of_lastSlash_eq_none hxs

namespace Vfs.Shape

lemma resolveParent (hs : Shape ok s kids) (h : vfsResolveParent s path s.cwd = some (d, name)) :
    s.InTree kids d ∧ name.length ≤ vfsNameMax ∧ slash ∉ name := by
  rw [vfsResolveParent] at h
  by_cases hlen : path.length = 0 ∨ path.length ≥ vfsPathMax
  · rw [if_pos hlen] at h
    cases h
  rw [if_neg hlen] at h
  dsimp only at h
  generalize path.take 1 ++ (path.drop 1).rdropWhile (· == slash) = tmp at h
  have hcut : ∀ {l : List UInt8}, slash ∉ l →
      (l.take vfsNameMax).length ≤ vfsNameMax ∧ slash ∉ l.take vfsNameMax :=
    fun hl => ⟨length_take_le _ _, fun h => hl (mem_of_mem_take h)⟩
  cases hlast : lastSlash tmp with
  | none =>
    simp only [hlast, Option.some.injEq, Prod.mk.injEq, hs.cwd, ite_self] at h
    obtain ⟨rfl, rfl⟩ := h
    exact ⟨root_inTree s kids, hcut (slash_not_mem_of_lastSlash_eq_none hlast)⟩
  | some i =>
    have hslash := slash_not_mem_drop_lastSlash hlast
    cases i with
    | zero =>
      simp only [hlast, Option.some.injEq, Prod.mk.injEq] at h
      obtain ⟨rfl, rfl⟩ := h
      exact ⟨root_inTree s kids, hcut hslash⟩
    | succ i =>
      simp only [hlast] at h
      split_ifs at h with hparent
      cases h
      exact ⟨hs.resolve_inTree hparent, hcut hslash⟩

end Vfs.Shape

/-! ## Calls -/

namespace Vfs.Shape

lemma make (hs : Shape ok s kids) (hok : ∀ name, PathName name → ok name) (type : NodeType)
    (A : Allocator) (path : List UInt8) : Extends ok s kids (vfsMake type A s path).2 := by
  rw [vfsMake]
  cases hparent : vfsResolveParent s path s.cwd with
  | none => exact hs.extends_self
  | some r =>
    obtain ⟨d, name⟩ := r
    obtain ⟨hd, hlen, hslash⟩ := hs.resolveParent hparent
    dsimp only
    split_ifs with hdir hname hcreate
    · exact hs.extends_self
    · exact hs.extends_self
    · simp only [not_or] at hname
      exact hs.create hd (hok name ⟨hname.1, hname.2.1, hname.2.2, hlen, hslash⟩) type
    · exact hs.extends_self

lemma openNode (hs : Shape ok s kids) (hok : ∀ name, PathName name → ok name) (A : Allocator)
    (path : List UInt8) (flags : UInt32) : Extends ok s kids (vfsOpenNode A s path flags).2 := by
  rw [vfsOpenNode]
  split_ifs
  · exact hs.make hok .file A path
  · exact hs.extends_self

lemma openNode_eq_resolve {flags : UInt32} (h : (vfsOpenNode A s path flags).1 ≠ 0) :
    (vfsOpenNode A s path flags).1 = vfsResolvePath (vfsOpenNode A s path flags).2 path := by
  rw [vfsOpenNode] at h ⊢
  split_ifs at h ⊢ with hcreate
  · dsimp only at h ⊢
    split_ifs at h ⊢
    · rfl
    · exact absurd rfl h
  · rfl

lemma openFile (hs : Shape ok s kids) (hok : ∀ name, PathName name → ok name) (A : Allocator)
    (path : List UInt8) (flags : UInt32) {r : ℕ × Vfs} (hr : vfsOpen A s path flags = r) :
    ∃ t kids', Shape ok t kids' ∧ Grown s kids t kids' ∧
      (r = (0, t) ∨ r.1 ≠ 0 ∧ r.1 ∈ t.live ∧ r.1 ∉ s.live ∧ t.Unowned kids' r.1 ∧
        ∃ n, t.InTree kids' n ∧ r.2 = { t with file := Function.update t.file r.1 ⟨n, 0, flags⟩ }) := by
  subst hr
  obtain ⟨kids', hs', hgrown⟩ := hs.openNode hok A path flags
  have hnode : (vfsOpenNode A s path flags).1 ≠ 0 →
      (vfsOpenNode A s path flags).2.InTree kids' (vfsOpenNode A s path flags).1 := by
    intro hne
    have hresolve := openNode_eq_resolve hne
    rw [hresolve] at hne ⊢
    exact hs'.resolve_inTree hne
  rw [vfsOpen]
  generalize vfsOpenNode A s path flags = r at hs' hgrown hnode ⊢
  dsimp only
  split_ifs with hnull hdir hfile
  · exact ⟨r.2, kids', hs', hgrown, Or.inl (by rw [← hnull])⟩
  · exact ⟨r.2, kids', hs', hgrown, Or.inl rfl⟩
  · exact ⟨(r.2.kmalloc A).2, kids', hs'.kmalloc A, hgrown.trans (Grown.kmalloc A r.2 kids'),
      Or.inl (by rw [← hfile])⟩
  · have hsame := sameTree_kmalloc A r.2 kids'
    refine ⟨(r.2.kmalloc A).2, kids', hs'.kmalloc A, hgrown.trans (Grown.kmalloc A r.2 kids'),
      Or.inr ⟨hfile, kmalloc_mem_live hfile, fun h => A.fresh _ _ (hgrown.live _ h),
        hsame.unowned (hs'.kmalloc_unowned A), r.1, hsame.inTree.mpr (hnode hnull), rfl⟩⟩

/-! ## Devices -/

lemma devices_pathName {ops : NodeOps} (h : (name, ops) ∈ devices) : PathName name := by
  simp only [devices, mem_cons, not_mem_nil, or_false, Prod.mk.injEq] at h
  rcases h with ⟨rfl, -⟩ | ⟨rfl, -⟩ | ⟨rfl, -⟩ <;> constructor <;> decide

/-- A node that holds nothing. -/
lemma newPlain (hs : Shape ok s kids) {type : NodeType} {ops : NodeOps} {r : ℕ × Vfs}
    (hr : vfsCreateNode A s name type ops .null = r) :
    Shape ok r.2 kids ∧ SameTree kids s r.2 ∧ Grown s kids r.2 kids ∧
      (r.1 ≠ 0 → Fresh s r.2 kids r.1 ∧ (r.2.node r.1).name = name) :=
  newNode (Grown.refl s kids) hs (by simp [NodeData.frees]) (by simp [NodeData.frees]) hr

lemma devfsAdd (hs : Shape ok s kids) (hd : s.InTree kids d) (hok : ok name) (ops : NodeOps) :
    Extends ok s kids (MyOs.devfsAdd A s d name ops).2 := by
  rw [MyOs.devfsAdd]
  generalize hr : vfsCreateNode A s name .dev ops .null = r
  obtain ⟨hs', hsame, hgrown, hnew⟩ := hs.newPlain hr
  dsimp only
  split_ifs with hfind hnull
  · exact hs.extends_self
  · exact ⟨kids, hs', hgrown⟩
  · obtain ⟨hfresh, hname⟩ := hnew hnull
    exact addChild_getD hgrown hs' (hsame.inTree.mpr hd) hfresh (hname ▸ hok)

lemma devfsAddAll (hs : Shape ok s kids) (hd : s.InTree kids d) {devs : List (List UInt8 × NodeOps)}
    (hok : ∀ dev ∈ devs, ok dev.1) : Extends ok s kids (MyOs.devfsAddAll A d s devs) := by
  induction devs generalizing s kids with
  | nil => exact hs.extends_self
  | cons dev devs ih =>
    obtain ⟨name, ops⟩ := dev
    obtain ⟨kids', hs', hgrown⟩ := hs.devfsAdd (A := A) hd (hok _ mem_cons_self) ops
    simp only [MyOs.devfsAddAll]
    split_ifs
    · exact hgrown.extends_trans (ih hs' (hgrown.inTree d hd) fun dev hdev =>
        hok dev (mem_cons_of_mem _ hdev))
    · exact ⟨kids', hs', hgrown⟩

lemma devfsDir (hs : Shape ok s kids) (hok : ∀ name, PathName name → ok name) (A : Allocator) :
    Extends ok s kids (MyOs.devfsDir A s).2 ∧
      ∀ kids', Shape ok (MyOs.devfsDir A s).2 kids' → (MyOs.devfsDir A s).1 ≠ 0 →
        (MyOs.devfsDir A s).2.InTree kids' (MyOs.devfsDir A s).1 := by
  simp only [MyOs.devfsDir]
  split_ifs
  · exact ⟨hs.make hok .dir A _, fun kids' hs' hne =>
      InTree.of_mem (hs'.findChild_mem (root_inTree _ kids') hne)⟩
  · exact ⟨hs.extends_self, fun kids' hs' hne =>
      InTree.of_mem (hs'.findChild_mem (root_inTree _ kids') hne)⟩

lemma devfsInit (hs : Shape ok s kids) (hok : ∀ name, PathName name → ok name) (A : Allocator) :
    Extends ok s kids (MyOs.devfsInit A s) := by
  obtain ⟨hextends, hdir⟩ := hs.devfsDir hok A
  simp only [MyOs.devfsInit]
  split_ifs with hroot hnull
  · exact hs.extends_self
  · exact hextends
  · obtain ⟨kids', hs', hgrown⟩ := hextends
    have hne : (MyOs.devfsDir A s).1 ≠ 0 := fun h => hnull (Or.inl h)
    exact hgrown.extends_trans (hs'.devfsAddAll (hdir kids' hs' hne) fun dev hdev =>
      hok dev.1 (devices_pathName hdev))

end Vfs.Shape

/-! ## Archives -/

/-- The parts of an entry's path.  Nothing follows a slash at its end. -/
def entryParts (path : List UInt8) : List (List UInt8) :=
  if (path.splitOn slash).getLast? = some [] then (path.splitOn slash).dropLast
  else path.splitOn slash

lemma entryParts_of_not_mem (h : slash ∉ path) (hne : path ≠ []) : entryParts path = [path] := by
  simp [entryParts, splitOn_eq_singleton h, hne]

lemma entryParts_append {part : List UInt8} (h : slash ∉ part) (rest : List UInt8) :
    entryParts (part ++ slash :: rest) = part :: entryParts rest := by
  simp only [entryParts, splitOn_append_cons_self_of_not_mem h]
  cases hrest : rest.splitOn slash with
  | nil => exact absurd hrest (splitOn_ne_nil _ _)
  | cons x xs =>
    rw [getLast?_cons_cons, dropLast_cons_cons]
    split_ifs <;> rfl

lemma slash_not_mem_takeWhile (path : List UInt8) : slash ∉ path.takeWhile (· != slash) := by
  intro h
  simpa using mem_takeWhile_imp h

lemma entryParts_of_last (h : path.dropWhile (· != slash) = []) (hne : path ≠ []) :
    entryParts path = [path.takeWhile (· != slash)] := by
  have hpath := takeWhile_append_dropWhile (p := (· != slash)) (l := path)
  rw [h, append_nil] at hpath
  rw [hpath, entryParts_of_not_mem (hpath ▸ slash_not_mem_takeWhile path) hne]

lemma entryParts_of_more {rest : List UInt8} {sep : UInt8}
    (h : path.dropWhile (· != slash) = sep :: rest) :
    entryParts path = path.takeWhile (· != slash) :: entryParts rest := by
  have hpath := takeWhile_append_dropWhile (p := (· != slash)) (l := path)
  have hsep : sep = slash := by simpa [h] using head?_dropWhile_not (· != slash) path
  rw [h, hsep] at hpath
  rw [← entryParts_append (slash_not_mem_takeWhile path) rest, hpath]

namespace Vfs.Shape

lemma modify_fresh {s0 : Vfs} {kids0 : ℕ → List ℕ} (hgrown : Grown s0 kids0 s kids)
    (hs : Shape ok s kids) (hc : Fresh s0 s kids c) {f : VfsNode → VfsNode}
    (hid : ∀ v, identity (f v) = identity v) (hchildren : ∀ v, (f v).children = v.children) :
    Shape ok (s.modify c f) kids ∧ Grown s0 kids0 (s.modify c f) kids ∧
      Fresh s0 (s.modify c f) kids c := by
  have hsame : SameTree kids s (s.modify c f) := sameTree_modify hc.out f
  have hfrees : (s.modify c f).frees c = s.frees c := frees_congr (modify_field identity hid s c c)
  have howns : ∀ p, (s.modify c f).Owns c p ↔ s.Owns c p := fun p => by rw [Owns, Owns, hfrees]
  refine ⟨hs.frame hsame hs.live hs.null, hgrown.trans (Grown.modify hc.out f), ⟨⟨?_, ?_, ?_, ?_⟩, ?_, ?_⟩⟩
  · exact fun h => hc.out (hsame.inTree.mp h)
  · rw [modify_self, hchildren, hc.children]
  · exact fun p hp => hc.live p ((howns p).mp hp)
  · exact fun p hp => hsame.unowned (hc.unowned p ((howns p).mp hp))
  · rw [hfrees]
    exact hc.nodup
  · exact fun p hp => hc.new p ((howns p).mp hp)

lemma addLeaf (hs : Shape ok s kids) (hd : s.InTree kids d) (hok : ok name) (entry : TarEntry) :
    Extends ok s kids (tarfsAddLeaf A s d name entry) := by
  rw [tarfsAddLeaf]
  split_ifs with hfind hdir
  · exact hs.extends_self
  · -- a directory
    generalize hr : vfsCreateNode A s name .dir .tarfsDir .null = r
    obtain ⟨hs', hsame, hgrown, hnew⟩ := hs.newPlain hr
    dsimp only
    split_ifs with hnull
    · exact ⟨kids, hs', hgrown⟩
    · obtain ⟨hfresh, hname⟩ := hnew hnull
      exact addChild_getD hgrown hs' (hsame.inTree.mpr hd) hfresh (hname ▸ hok)
  · -- a file, with a record of its own
    have hs1 := hs.kmalloc A
    have hun := (sameTree_kmalloc A s kids).unowned (hs.kmalloc_unowned A)
    dsimp only
    split_ifs with hfile hnull
    · exact ⟨kids, hs1, Grown.kmalloc A s kids⟩
    all_goals
      generalize hr : vfsCreateNode A (s.kmalloc A).2 name .file .tarfsFile
        (.tarfs (s.kmalloc A).1 ⟨entry.data, entry.size⟩) = r at hnull ⊢
      obtain ⟨hs', hsame, hgrown, hnew⟩ :=
        newNode (Grown.kmalloc A s kids) hs1 (by simp [NodeData.frees])
          (hs.record_fresh hfile (by simp [NodeData.frees])) hr
    · refine ⟨kids, hs'.kfree ?_, hgrown.kfree ?_ (A.fresh _ _)⟩
      · rintro p ⟨⟩
        exact hsame.unowned hun
      · exact (hs1.grown_createNode hr).live _ (kmalloc_mem_live hfile)
    · obtain ⟨hfresh, hname⟩ := hnew hnull
      obtain ⟨hs'', hgrown', hfresh'⟩ := modify_fresh hgrown hs' hfresh
        (f := fun n => { n with size := entry.size }) (fun _ => rfl) fun _ => rfl
      refine addChild_getD hgrown' hs'' (hsame.inTree.mpr hd) hfresh' ?_
      rw [modify_self]
      exact hname ▸ hok

lemma addLoop (hs : Shape ok s kids) (hn : s.InTree kids n) (entry : TarEntry) (fuel : ℕ)
    (hok : ∀ part ∈ entryParts path, slash ∉ part → part.length ≤ vfsNameMax → ok part) :
    Extends ok s kids (tarfsAddLoop A entry fuel s n path) := by
  fun_induction tarfsAddLoop A entry fuel s n path generalizing kids
  case case1 | case2 | case3 => exact hs.extends_self
  case case4 path hnil _ hlong hdrop =>
    rw [entryParts_of_last hdrop hnil] at hok
    exact hs.addLeaf hn (hok _ mem_cons_self (slash_not_mem_takeWhile path) (not_lt.mp hlong)) entry
  case case5 hdrop _ hfind ih =>
    rw [entryParts_of_more hdrop] at hok
    exact ih hs (InTree.of_mem (hs.findChild_mem hn hfind)) fun part hpart => hok part (mem_cons_of_mem _ hpart)
  case case6 | case7 =>
    obtain ⟨hs', -, hgrown, -⟩ := hs.newPlain rfl
    exact ⟨kids, hs', hgrown⟩
  case case8 path _ _ hlong _ _ hdrop _ _ made hnull _ hadd ih =>
    rw [entryParts_of_more hdrop] at hok
    obtain ⟨hs', hsame, hgrown, hnew⟩ := hs.newPlain (r := made) rfl
    obtain ⟨hfresh, hnamed⟩ := hnew hnull
    have hname := hok _ mem_cons_self (slash_not_mem_takeWhile path) (not_lt.mp hlong)
    obtain ⟨kids', hs'', hgrown', hc⟩ :=
      addChild hgrown hs' (hsame.inTree.mpr hn) hfresh (hnamed ▸ hname) hadd
    exact hgrown'.extends_trans (ih hs'' hc fun part hpart => hok part (mem_cons_of_mem _ hpart))

lemma addEntry (hs : Shape ok s kids) {entry : TarEntry} (A : Allocator)
    (hok : ∀ part ∈ entryParts entry.path, slash ∉ part → part.length ≤ vfsNameMax → ok part) :
    Extends ok s kids (tarfsAddEntry A s entry) := by
  rw [tarfsAddEntry]
  split_ifs
  · exact hs.extends_self
  · exact hs.addLoop (root_inTree s kids) entry _ hok

/-- **An archive keeps the shape**, if the parts of its paths are allowed as names. -/
lemma populate (hs : Shape ok s kids) {archive : List UInt8} (A : Allocator)
    (hok : ∀ entry ∈ tarEntries archive, ∀ part ∈ entryParts entry.path, slash ∉ part →
      part.length ≤ vfsNameMax → ok part) :
    Extends ok s kids (tarfsPopulateVfs A archive s) := by
  rw [tarfsPopulateVfs]
  split_ifs with hroot
  · exact hs.extends_self
  clear hroot
  generalize tarEntries archive = entries at hok ⊢
  induction entries generalizing s kids with
  | nil => exact hs.extends_self
  | cons entry entries ih =>
    obtain ⟨kids', hs', hgrown⟩ := hs.addEntry A (hok entry mem_cons_self)
    exact hgrown.extends_trans (ih hs' fun e he => hok e (mem_cons_of_mem _ he))

end Vfs.Shape

/-! ## The shape along a run -/

namespace Vfs.HasShape

lemma unlink (hs : HasShape ok s) (path : List UInt8) : HasShape ok ((vfsUnlink s path).getD s) := by
  obtain ⟨kids, hs⟩ := hs
  rw [vfsUnlink]
  cases hparent : vfsResolveParent s path s.cwd with
  | none => exact ⟨kids, hs⟩
  | some r =>
    obtain ⟨d, name⟩ := r
    obtain ⟨hd, -, -⟩ := hs.resolveParent hparent
    dsimp only
    split_ifs with hdir hunlink
    · exact ⟨kids, hs⟩
    · cases h : memfsUnlink s d name with
      | none => exact ⟨kids, hs⟩
      | some s' =>
        obtain ⟨kids', hs', -⟩ := hs.unlink hd h
        exact ⟨kids', hs'⟩
    · exact ⟨kids, hs⟩

lemma openFile (hs : HasShape ok s) (hok : ∀ name, PathName name → ok name) (A : Allocator)
    (path : List UInt8) (flags : UInt32) : HasShape ok (vfsOpen A s path flags).2 := by
  obtain ⟨kids, hs⟩ := hs
  obtain ⟨t, kids', hs', -, hr | ⟨-, -, -, -, n, -, hr⟩⟩ := hs.openFile hok A path flags rfl
  · rw [hr]
    exact ⟨kids', hs'⟩
  · -- an open file is not part of the tree
    rw [hr]
    exact ⟨kids', hs'.frame ⟨rfl, rfl, fun _ _ => rfl⟩ hs'.live hs'.null⟩

/-- **A call keeps the shape.** -/
lemma step (hs : HasShape ok s) (hok : ∀ name, PathName name → ok name) (A : Allocator) (op : VfsOp) :
    HasShape ok (s.step A op) := by
  cases op with
  | openFile path flags => exact hs.openFile hok A path flags
  | unlink path => exact hs.unlink path
  | mkdir path =>
    obtain ⟨kids, hs⟩ := hs
    exact (hs.make hok .dir A path).hasShape
  | create path =>
    obtain ⟨kids, hs⟩ := hs
    exact (hs.make hok .file A path).hasShape
  | devfsInit =>
    obtain ⟨kids, hs⟩ := hs
    exact (hs.devfsInit hok A).hasShape

lemma populate (hs : HasShape ok s) {archive : List UInt8} (A : Allocator)
    (hok : ∀ entry ∈ tarEntries archive, ∀ part ∈ entryParts entry.path, slash ∉ part →
      part.length ≤ vfsNameMax → ok part) :
    HasShape ok (tarfsPopulateVfs A archive s) := by
  obtain ⟨kids, hs⟩ := hs
  exact (hs.populate A hok).hasShape

end Vfs.HasShape

lemma Vfs.Shape.init (ok : List UInt8 → Prop) (hroot : (vfsInit A).root ≠ 0) :
    Shape ok (vfsInit A) fun _ => [] := by
  simp only [vfsInit, vfsCreateNode] at hroot ⊢
  split_ifs at hroot ⊢ with hnode hcopy
  · exact absurd hnode hroot
  · exact absurd rfl hroot
  have hlive := (Shape.kmalloc_live hcopy).trans (congrArg _ (Shape.kmalloc_live hnode))
  generalize ((vfsEmpty.kmalloc A).2.kmalloc A) = q at *
  generalize (vfsEmpty.kmalloc A).1 = n at *
  have hin : ∀ {d : ℕ}, d = n ∨ (∃ e : ℕ, d ∈ (fun _ => [] : ℕ → List ℕ) e) → d = n := by
    rintro d (rfl | ⟨e, he⟩)
    · rfl
    · cases he
  constructor
  case chain =>
    intro d hd
    rw [hin hd]
    simp [Chain]
  case live =>
    intro d hd p hp
    rw [hin hd] at hp
    have hp : p = q.1 ∨ p = n := by simpa [Owns, frees] using hp
    simpa [hlive, vfsEmpty] using hp
  case apart => exact fun d e hd he _ _ _ => (hin hd).trans (hin he).symm
  case null => simp [hlive, vfsEmpty, Ne.symm hcopy, Ne.symm hnode]
  case cwd => rfl
  all_goals simp

end MyOs
