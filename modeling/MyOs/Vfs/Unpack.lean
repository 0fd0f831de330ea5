import MyOs.Vfs.Archive
import MyOs.Vfs.Lookup

/-!
# Unpacking an archive

Every entry of an archive adds its path with the parents it needs (`addEntry_adds`), so that after some entries
the tree holds the paths of these entries and of their parents and nothing else (`Holds`).  From there the
archive is unpacked (`archive_unpacked`): the name of each file leads to a node with its size and its bytes, the
name of each directory to a directory, and all other nodes are parents of these.
-/

namespace MyOs

open Lib Vfs List

variable {A : Allocator} {s s' u : Vfs} {kids : ℕ → List ℕ} {c d n : ℕ} {name : List UInt8}
  {names base parts : List (List UInt8)} {entry : TarEntry}

/-- There is always memory. -/
def Allocator.Succeeds (A : Allocator) : Prop := ∀ calls live, A.addr calls live ≠ 0

/-- `tarfs_read`; `none` is the result -1. -/
def tarfsRead (archive : List UInt8) (node : VfsNode) (offset len : ℕ) : Option (List UInt8) :=
  if node.type ≠ .file then none
  else
    match node.data with
    | .tarfs _ file =>
      if offset ≥ file.size then some []
      else some (field archive (file.data + offset) (min len (file.size - offset)))
    -- the operations of the archive's files are not set in other nodes
    | _ => none

/-- What the last part of an entry's path becomes. -/
def TarEntry.Leaf (entry : TarEntry) (v : NodeType × ℕ × NodeData × NodeOps) : Prop :=
  if entry.isDir then v = (.dir, 0, .null, .tarfsDir)
  else ∃ addr, v = (.file, entry.size, .tarfs addr ⟨entry.data, entry.size⟩, .tarfsFile)

lemma TarEntry.exists_leaf (entry : TarEntry) : ∃ v, entry.Leaf v := by
  simp only [TarEntry.Leaf]
  split_ifs
  · exact ⟨_, rfl⟩
  · exact ⟨_, 0, rfl⟩

/-! ## One entry -/

lemma createNode_what (hA : A.Succeeds) {type : NodeType} {ops : NodeOps} {data : NodeData} {r : ℕ × Vfs}
    (hr : vfsCreateNode A s name type ops data = r) :
    r.1 ≠ 0 ∧ what (r.2.node r.1) = (type, 0, data, ops) := by
  subst hr
  have hnode : (s.kmalloc A).1 ≠ 0 := hA _ _
  have hcopy : ((s.kmalloc A).2.kmalloc A).1 ≠ 0 := hA _ _
  simp only [vfsCreateNode]
  rw [if_neg hnode, if_neg hcopy]
  refine ⟨hnode, ?_⟩
  rw [modify_self]
  rfl

namespace Vfs.Shape

lemma addDir (hA : A.Succeeds) (hs : Shape PathName s kids) (hname : PathName name) (hbase : s.find base = d)
    (hd : d ≠ 0) (hdir : (s.node d).type = .dir) (hnew : vfsFindChild s d name = 0) {r : ℕ × Vfs}
    (hr : vfsCreateNode A s name .dir .tarfsDir .null = r) :
    r.1 ≠ 0 ∧ ∃ s' kids', vfsAddChild r.2 d r.1 = some s' ∧ Shape PathName s' kids' ∧
      s'.find (base ++ [name]) = r.1 ∧ Adds s s' (base ++ [name]) (.dir, 0, .null, .tarfsDir) := by
  obtain ⟨hnull, hwhat⟩ := createNode_what hA hr
  obtain ⟨hu, hsame, hloose⟩ := hs.createNode (by simp [NodeData.frees]) hr
  obtain ⟨hc, hcname⟩ := hloose hnull
  obtain ⟨hadd, hs', hfind, hadds⟩ := hs.adds_attach hu hsame hc hnull hcname hname hbase hd hdir hnew
  exact ⟨hnull, _, _, hadd, hs', hfind, hwhat ▸ hadds⟩

lemma addLeaf_adds (hA : A.Succeeds) (entry : TarEntry) (hs : Shape PathName s kids) (hname : PathName name)
    (hbase : s.find base = d) (hd : d ≠ 0) (hdir : (s.node d).type = .dir) :
    ∃ kids' v, Shape PathName (tarfsAddLeaf A s d name entry) kids' ∧
      Adds s (tarfsAddLeaf A s d name entry) (base ++ [name]) v ∧ entry.Leaf v := by
  rw [tarfsAddLeaf]
  by_cases hfind : vfsFindChild s d name = 0
  · rw [if_neg (not_not.mpr hfind)]
    cases hentry : entry.isDir with
    | true =>
      rw [if_pos rfl]
      generalize hr : vfsCreateNode A s name .dir .tarfsDir .null = r
      obtain ⟨hnull, s', kids', hadd, hs', -, hadds⟩ := addDir hA hs hname hbase hd hdir hfind hr
      dsimp only
      rw [if_neg hnull, hadd]
      exact ⟨kids', _, hs', hadds, by rw [TarEntry.Leaf, hentry, if_pos rfl]⟩
    | false =>
      have hfile : (s.kmalloc A).1 ≠ 0 := hA _ _
      rw [if_neg Bool.false_ne_true]
      dsimp only
      rw [if_neg hfile]
      generalize hr : vfsCreateNode A (s.kmalloc A).2 name .file .tarfsFile
        (.tarfs (s.kmalloc A).1 ⟨entry.data, entry.size⟩) = r
      obtain ⟨hnull, hwhat⟩ := createNode_what hA hr
      obtain ⟨hu, hsame, hgrown, hfresh⟩ :=
        newNode (Grown.kmalloc A s kids) (hs.kmalloc A) (by simp [NodeData.frees])
          (hs.record_fresh hfile (by simp [NodeData.frees])) hr
      obtain ⟨hfresh, hcname⟩ := hfresh hnull
      obtain ⟨hu', -, hfresh'⟩ := modify_fresh hgrown hu hfresh
        (f := fun n => { n with size := entry.size }) (fun _ => rfl) fun _ => rfl
      have hsame' := ((sameTree_kmalloc A s kids).trans hsame).trans
        (sameTree_modify hfresh.out fun n => { n with size := entry.size })
      obtain ⟨hadd, hs', -, hadds⟩ := hs.adds_attach hu' hsame' hfresh'.toLoose hnull
        (by rw [modify_self]; exact hcname) hname hbase hd hdir hfind
      rw [if_neg hnull, hadd]
      refine ⟨_, _, hs', hadds, ?_⟩
      rw [TarEntry.Leaf, hentry, if_neg Bool.false_ne_true]
      simp only [what, Prod.mk.injEq] at hwhat
      exact ⟨(s.kmalloc A).1, by simp [what, hwhat]⟩
  · rw [if_pos hfind]
    have hthere : s.find (base ++ [name]) ≠ 0 := by rwa [find_snoc, hbase]
    obtain ⟨v, hv⟩ := entry.exists_leaf
    exact ⟨kids, v, hs, Adds.refl hthere v, hv⟩

/-- **The loop of `tarfs_add_entry`** adds the path, if what is there on the way are directories. -/
lemma addLoop_adds (hA : A.Succeeds) (entry : TarEntry) (hparts : ∀ part ∈ parts, PathName part)
    (hne : parts ≠ []) (hs : Shape PathName s kids) (hbase : s.find base = d) (hd : d ≠ 0)
    (hdirs : ∀ names, names <+: base ++ parts → names ≠ base ++ parts → s.find names ≠ 0 →
      (s.node (s.find names)).type = .dir)
    {fuel : ℕ} (hfuel : ([slash].intercalate parts).length ≤ fuel) :
    ∃ kids' v, Shape PathName (tarfsAddLoop A entry fuel s d ([slash].intercalate parts)) kids' ∧
      Adds s (tarfsAddLoop A entry fuel s d ([slash].intercalate parts)) (base ++ parts) v ∧
      entry.Leaf v := by
  induction parts generalizing base s kids d fuel with
  | nil => exact absurd rfl hne
  | cons name parts ih =>
    have hname := hparts name mem_cons_self
    have hlen := not_lt.mpr hname.length_le
    have hpos : 0 < name.length := length_pos_iff.mpr hname.ne_nil
    have hdir : (s.node d).type = .dir := by
      rw [← hbase]
      exact hdirs base (prefix_append _ _) (by simp) (hbase ▸ hd)
    cases parts with
    | nil =>
      rw [intercalate_singleton] at hfuel ⊢
      obtain ⟨htake, hdrop⟩ := takeWhile_name hname.noSlash (Or.inl rfl)
      rw [append_nil] at htake hdrop
      cases fuel with
      | zero => omega
      | succ fuel =>
        rw [tarfsAddLoop, if_neg hname.ne_nil]
        dsimp only
        rw [htake, if_neg hlen, hdrop]
        exact addLeaf_adds hA entry hs hname hbase hd hdir
    | cons x xs =>
      have hrest : ∀ part ∈ x :: xs, PathName part :=
        fun part hpart => hparts part (mem_cons_of_mem _ hpart)
      rw [intercalate_cons_cons, append_assoc, singleton_append] at hfuel ⊢
      rw [length_append, length_cons] at hfuel
      have hhead : (slash :: [slash].intercalate (x :: xs)).head? = some slash := rfl
      obtain ⟨htake, hdrop⟩ := takeWhile_name hname.noSlash (Or.inr hhead)
      have happend : base ++ name :: x :: xs = base ++ [name] ++ x :: xs := by simp
      rw [happend] at hdirs ⊢
      cases fuel with
      | zero => omega
      | succ fuel =>
        have hless : ([slash].intercalate (x :: xs)).length ≤ fuel := by omega
        rw [tarfsAddLoop, if_neg (append_ne_nil_of_left_ne_nil hname.ne_nil _)]
        dsimp only
        rw [htake, if_neg hlen, hdrop]
        dsimp only
        by_cases hfind : vfsFindChild s d name = 0
        · -- the directory is made
          rw [if_neg (not_not.mpr hfind)]
          generalize hr : vfsCreateNode A s name .dir .tarfsDir .null = r
          obtain ⟨hnull, s', kids', hadd, hs', hfind', hadds⟩ :=
            addDir hA hs hname hbase hd hdir hfind hr
          rw [if_neg hnull, hadd]
          dsimp only
          obtain ⟨kids'', v, hs'', hadds', hv⟩ := ih hrest (cons_ne_nil x xs) hs' hfind' hnull
            (fun names hle hne => hadds.type_dir (fun _ => rfl) (hdirs names hle hne)) hless
          exact ⟨kids'', v, hs'', hadds.trans rfl hadds' (prefix_append _ _) (by simp), hv⟩
        · rw [if_pos hfind]
          exact ih hrest (cons_ne_nil x xs) hs (by rw [find_snoc, hbase]) hfind hdirs hless

/-- **One entry.** -/
lemma addEntry_adds (hA : A.Succeeds) (hs : Shape PathName s kids)
    (hpath : entry.path = [slash].intercalate parts) (hparts : ∀ part ∈ parts, PathName part)
    (hne : parts ≠ []) (hdirs : ∀ names, names <+: parts → names ≠ parts → s.find names ≠ 0 →
      (s.node (s.find names)).type = .dir) :
    ∃ kids' v, Shape PathName (tarfsAddEntry A s entry) kids' ∧
      Adds s (tarfsAddEntry A s entry) parts v ∧ entry.Leaf v := by
  have hroot := hs.ne_zero (root_inTree s kids)
  have hnil := intercalate_ne_nil (fun part hpart => (hparts part hpart).ne_nil) hne
  have hbase : s.find [] = s.root := rfl
  rw [tarfsAddEntry, hpath, if_neg (by simp [hroot, hnil])]
  exact addLoop_adds hA entry hparts hne hs hbase hroot hdirs (le_refl _)

end Vfs.Shape

/-! ## All entries -/

/-- The tree holds the paths of some items and of their parents, and nothing else. -/
structure Holds (archive : List UInt8) (items : List TarItem) (s : Vfs) : Prop where
  found : ∀ names, s.find names ≠ 0 ↔ names = [] ∨ ∃ item ∈ items, names <+: item.parts
  file : ∀ item ∈ items, item.isDir = false → ∃ addr off,
    what (s.node (s.find item.parts)) =
      (.file, item.content.length, .tarfs addr ⟨off, item.content.length⟩, .tarfsFile) ∧
    field archive off item.content.length = item.content
  dir : ∀ names, s.find names ≠ 0 → (∀ item ∈ items, item.isDir = false → names ≠ item.parts) →
    (s.node (s.find names)).type = .dir

lemma length_le_intercalate {part : List UInt8} (h : part ∈ parts) :
    part.length ≤ ([slash].intercalate parts).length := by
  induction parts with
  | nil => cases h
  | cons x xs ih =>
    obtain ⟨rest, hpath, hrest⟩ := intercalate_cons x xs
    rw [hpath, length_append]
    rcases mem_cons.mp h with rfl | h
    · omega
    · have hlen := ih h
      rcases hrest with ⟨rfl, -⟩ | rfl
      · cases h
      · rw [length_cons]
        omega

lemma TarItem.pathName (item : TarItem) : ∀ part ∈ item.parts, PathName part := by
  intro part hpart
  obtain ⟨hnil, hdot, hdots, hslash⟩ := item.clean part hpart
  refine ⟨hnil, hdot, hdots, ?_, hslash⟩
  obtain ⟨lead, trail, hname, -, -⟩ := item.spelled
  have hlen := item.name_length
  have hle := length_le_intercalate hpart
  rw [hname, length_append, length_append] at hlen
  show part.length ≤ 255
  omega

namespace Holds

variable {archive : List UInt8} {items : List TarItem} {item : TarItem}

lemma of_adds {v : NodeType × ℕ × NodeData × NodeOps} (h : Holds archive items s)
    (hadds : Adds s s' item.parts v) (hv : entry.Leaf v) (hentry : Describes archive item entry)
    (hnew : item.isDir = false → s.find item.parts = 0) : Holds archive (items ++ [item]) s' := by
  rw [TarEntry.Leaf, hentry.isDir] at hv
  constructor
  case found =>
    intro names
    by_cases hzero : s.find names = 0
    · have hnone : ¬ (names = [] ∨ ∃ x ∈ items, names <+: x.parts) := fun hfound =>
        (h.found names).mpr hfound hzero
      have hiff : (names = [] ∨ ∃ x ∈ items ++ [item], names <+: x.parts) ↔ names <+: item.parts := by
        constructor
        · rintro (hnil | ⟨x, hx, hle⟩)
          · exact absurd (Or.inl hnil) hnone
          · rcases mem_append.mp hx with hx | hx
            · exact absurd (Or.inr ⟨x, hx, hle⟩) hnone
            · rwa [mem_singleton.mp hx] at hle
        · exact fun hle => Or.inr ⟨item, by simp, hle⟩
      rw [hiff]
      refine ⟨fun hne => ?_, fun hle => (hadds.new names hzero hle).1⟩
      by_contra hnot
      exact hne (hadds.none names hzero hnot)
    · refine iff_of_true (hadds.old names hzero).1 ?_
      refine ((h.found names).mp hzero).imp id ?_
      rintro ⟨x, hx, hle⟩
      exact ⟨x, mem_append_left _ hx, hle⟩
  case file =>
    intro x hx hfile
    rcases mem_append.mp hx with hx | hx
    · obtain ⟨addr, off, hwhat, hdata⟩ := h.file x hx hfile
      have hthere : s.find x.parts ≠ 0 := (h.found _).mpr (Or.inr ⟨x, hx, prefix_refl _⟩)
      exact ⟨addr, off, (hadds.old _ hthere).2.trans hwhat, hdata⟩
    · rw [mem_singleton.mp hx] at hfile ⊢
      rw [if_neg (by rw [hfile]; exact Bool.false_ne_true)] at hv
      obtain ⟨addr, hv⟩ := hv
      refine ⟨addr, entry.data, ?_, hentry.data⟩
      rw [(hadds.new _ (hnew hfile) (prefix_refl _)).2.1 rfl, hv, hentry.size hfile]
  case dir =>
    intro names hne hother
    refine hadds.type_dir (fun heq => ?_) (fun hne => h.dir names hne fun x hx =>
      hother x (mem_append_left _ hx)) hne
    -- the item is no file, if its own path is asked for
    cases hdir : item.isDir with
    | true =>
      rw [hdir, if_pos rfl] at hv
      rw [hv]
    | false => exact absurd heq (hother item (by simp) hdir)

lemma step (hA : A.Succeeds) (h : Holds archive items s) (hs : Shape PathName s kids)
    (hentry : Describes archive item entry) (hdistinct : ∀ x ∈ items, x.parts ≠ item.parts)
    (hbelow : ∀ file ∈ items, file.isDir = false → file.parts <+: item.parts → file.parts = item.parts)
    (habove : item.isDir = false → ∀ x ∈ items, item.parts <+: x.parts → item.parts = x.parts) :
    Holds archive (items ++ [item]) (tarfsAddEntry A s entry) ∧
      HasShape PathName (tarfsAddEntry A s entry) := by
  have hnew : item.isDir = false → s.find item.parts = 0 := by
    intro hfile
    by_contra hne
    rcases (h.found _).mp hne with hnil | ⟨x, hx, hle⟩
    · exact absurd (item.root hnil) (by rw [← TarItem.isDir, hfile]; exact Bool.false_ne_true)
    · exact hdistinct x hx (habove hfile x hx hle).symm
  by_cases hnil : item.parts = []
  · -- the root is there already
    have hadd : tarfsAddEntry A s entry = s := by
      refine if_pos (Or.inr ?_)
      rw [hentry.path, hnil]
      rfl
    have hroot : s.find item.parts ≠ 0 := (h.found _).mpr (Or.inl hnil)
    obtain ⟨v, hv⟩ := entry.exists_leaf
    rw [hadd]
    exact ⟨h.of_adds (Adds.refl hroot v) hv hentry hnew, kids, hs⟩
  · have hdirs : ∀ names, names <+: item.parts → names ≠ item.parts → s.find names ≠ 0 →
        (s.node (s.find names)).type = .dir := by
      intro names hle hne hfind
      refine h.dir names hfind fun file hmem hfile heq => ?_
      exact hne (heq.trans (hbelow file hmem hfile (heq ▸ hle)))
    obtain ⟨kids', v, hs', hadds, hv⟩ := hs.addEntry_adds hA hentry.path item.pathName hnil hdirs
    exact ⟨h.of_adds hadds hv hentry hnew, kids', hs'⟩

lemma foldl (hA : A.Succeeds) {t : TarArchive} {rest : List TarItem} {entries : List TarEntry}
    (hentries : List.Forall₂ (Describes archive) rest entries) (hitems : t.items = items ++ rest)
    (h : Holds archive items s) (hs : HasShape PathName s) :
    Holds archive t.items (entries.foldl (tarfsAddEntry A) s) ∧
      HasShape PathName (entries.foldl (tarfsAddEntry A) s) := by
  induction hentries generalizing items s with
  | nil =>
    rw [hitems, append_nil]
    exact ⟨h, hs⟩
  | @cons item entry rest entries hentry _ ih =>
    obtain ⟨kids, hs⟩ := hs
    have hmem : ∀ x ∈ items, x ∈ t.items := fun x hx => hitems ▸ mem_append_left _ hx
    have hitem : item ∈ t.items := by simp [hitems]
    have hdistinct : ∀ x ∈ items, x.parts ≠ item.parts := by
      intro x hx
      have hnodup := t.distinct
      rw [hitems, map_append, map_cons] at hnodup
      exact (nodup_append.mp hnodup).2.2 _ (mem_map_of_mem hx) _ mem_cons_self
    obtain ⟨h', hs'⟩ := h.step hA hs hentry hdistinct
      (fun file hfile hdir => t.leaves file (hmem file hfile) hdir item hitem)
      (fun hdir x hx => t.leaves item hitem hdir x (hmem x hx))
    exact ih (by simp [hitems]) h' hs'

lemma init (hA : A.Succeeds) (archive : List UInt8) :
    Shape PathName (vfsInit A) (fun _ => []) ∧ Holds archive [] (vfsInit A) := by
  have hroot : (vfsInit A).root ≠ 0 := (createNode_what hA rfl).1
  have hs := Shape.init PathName hroot
  have hfind : ∀ names, (vfsInit A).find names ≠ 0 → names = [] := by
    intro names hne
    cases names using reverseRecOn with
    | nil => rfl
    | append_singleton names name => cases (hs.find_snoc_mem hne).1
  refine ⟨hs, fun names => ?_, by simp, fun names hne _ => ?_⟩
  · refine ⟨fun hne => Or.inl (hfind names hne), ?_⟩
    rintro (rfl | ⟨x, hx, -⟩)
    · exact hroot
    · cases hx
  · rw [hfind names hne]
    exact hs.rootDir

end Holds

/-! ## The unpacked archive -/

/-- The node of a file: its size, and its bytes for all who read it. -/
structure FileNode (archive content : List UInt8) (node : VfsNode) : Prop where
  type : node.type = .file
  size : node.size = content.length
  ops : node.ops = .tarfsFile
  read : ∀ offset len, tarfsRead archive node offset len = some ((content.drop offset).take len)

/-- The tree is what the archive says: the name of each item leads to its node, and other nodes are parents of
the items. -/
structure TarArchive.Unpacked (t : TarArchive) (s : Vfs) : Prop where
  file : ∀ item ∈ t.items, item.isDir = false → ∀ cwd,
    vfsResolve s (slash :: fullName item.header) cwd ≠ 0 ∧
      FileNode t.bytes item.content (s.node (vfsResolve s (slash :: fullName item.header) cwd))
  dir : ∀ item ∈ t.items, item.isDir = true → ∀ cwd,
    vfsResolve s (slash :: fullName item.header) cwd ≠ 0 ∧
      (s.node (vfsResolve s (slash :: fullName item.header) cwd)).type = .dir
  only : ∀ n, s.Reachable n → n = s.root ∨ ∃ item ∈ t.items, ∃ names, names <+: item.parts ∧
    (∀ cwd, vfsResolve s (pathTo names) cwd = n) ∧ (names = item.parts ∨ (s.node n).type = .dir)

lemma fileNode_of_what {archive content : List UInt8} {node : VfsNode} {addr off : ℕ}
    (hwhat : what node = (.file, content.length, .tarfs addr ⟨off, content.length⟩, .tarfsFile))
    (hdata : field archive off content.length = content) : FileNode archive content node := by
  simp only [what, Prod.mk.injEq] at hwhat
  obtain ⟨htype, hsize, hnode, hops⟩ := hwhat
  refine ⟨htype, hsize, hops, fun offset len => ?_⟩
  rw [tarfsRead, if_neg (not_not.mpr htype), hnode]
  dsimp only
  by_cases hend : offset ≥ content.length
  · rw [if_pos hend, drop_eq_nil_of_le hend, take_nil]
  · have hrest : content.drop offset = (archive.drop (off + offset)).take (content.length - offset) := by
      nth_rewrite 1 [← hdata]
      rw [field, drop_take, drop_drop]
    rw [if_neg hend, hrest, take_take, field]

lemma resolve_fullName (hroot : s.root ≠ 0) (item : TarItem) (cwd : ℕ) :
    vfsResolve s (slash :: fullName item.header) cwd = s.find item.parts := by
  obtain ⟨lead, trail, hname, hlead, htrail⟩ := item.spelled
  rw [hname]
  exact resolve_names hroot item.pathName hlead (htrail.imp id And.right) cwd

lemma Holds.unpacked {t : TarArchive} (h : Holds t.bytes t.items s) (hs : Shape PathName s kids) :
    t.Unpacked s := by
  have hroot := hs.ne_zero (Shape.root_inTree s kids)
  have hthere : ∀ item ∈ t.items, s.find item.parts ≠ 0 := fun item hitem =>
    (h.found _).mpr (Or.inr ⟨item, hitem, prefix_refl _⟩)
  -- what is on the way to an item is no file
  have hway : ∀ item ∈ t.items, ∀ names, names <+: item.parts →
      names ≠ item.parts ∨ item.isDir = true → (s.node (s.find names)).type = .dir := by
    intro item hitem names hle hor
    refine h.dir names ((h.found names).mpr (Or.inr ⟨item, hitem, hle⟩)) fun file hmem hfile heq => ?_
    have hsame := t.leaves file hmem hfile item hitem (heq ▸ hle)
    rcases hor with hne | hdir
    · exact hne (heq.trans hsame)
    · rw [inj_on_of_nodup_map t.distinct hmem hitem hsame, hdir] at hfile
      exact absurd hfile (by decide)
  constructor
  case file =>
    intro item hitem hfile cwd
    obtain ⟨addr, off, hwhat, hdata⟩ := h.file item hitem hfile
    rw [resolve_fullName hroot]
    exact ⟨hthere item hitem, fileNode_of_what hwhat hdata⟩
  case dir =>
    intro item hitem hdir cwd
    rw [resolve_fullName hroot]
    exact ⟨hthere item hitem, hway item hitem _ (prefix_refl _) (Or.inr hdir)⟩
  case only =>
    intro n hn
    obtain ⟨hntree, names, hchain⟩ := hs.reachable hn
    obtain ⟨hok, hfind⟩ := hs.foldl_findChild hntree hchain
    have hfound : s.find names = n := hfind
    rcases (h.found names).mp (hfound ▸ hs.ne_zero hntree) with rfl | ⟨item, hitem, hle⟩
    · exact Or.inl hfound.symm
    · refine Or.inr ⟨item, hitem, names, hle, fun cwd => (resolve_pathTo hroot hok cwd).trans hfind, ?_⟩
      by_cases heq : names = item.parts
      · exact Or.inl heq
      · exact Or.inr (hfound ▸ hway item hitem names hle (Or.inl heq))

/-- **An archive is unpacked.**  Whatever its entries are and in which order they come, the tree is what the
archive says, if no size is set for a directory and no name field is empty. -/
theorem archive_unpacked (hA : A.Succeeds) (t : TarArchive) (hplain : ∀ item ∈ t.items, item.Plain) :
    t.Unpacked (tarfsPopulateVfs A t.bytes (vfsInit A)) := by
  obtain ⟨hs, hholds⟩ := Holds.init hA t.bytes
  have hroot := hs.ne_zero (Shape.root_inTree _ _)
  obtain ⟨h, kids, hs'⟩ := Holds.foldl hA (tarEntries_describe t hplain) rfl hholds ⟨_, hs⟩
  rw [tarfsPopulateVfs, if_neg hroot]
  exact h.unpacked hs'

/-! ## Small archives -/

/-- A field of `len` bytes. -/
def padded (len : ℕ) (text : List UInt8) : List UInt8 := text ++ List.replicate (len - text.length) 0

/-- A number in `n` octal digits. -/
def octalOf : ℕ → ℕ → List (Fin 8)
  | 0, _ => []
  | n + 1, v => octalOf n (v / 8) ++ [⟨v % 8, Nat.mod_lt v (by decide)⟩]

/-- A header as `tar` writes it, with the owner and the time left at zero. -/
def ustarHeader (pre name : List UInt8) (size : ℕ) (typeflag : UInt8) : List UInt8 :=
  let zeros (n : ℕ) := padded (n + 1) (octalDigits (octalOf n 0))
  let front := padded 100 name ++ padded 8 (octalDigits (octalOf 7 0x1A4)) ++ zeros 7 ++ zeros 7 ++
    padded 12 (octalDigits (octalOf 11 size)) ++ zeros 11
  let back := [typeflag] ++ padded 100 [] ++ padded 6 (ascii "ustar") ++
    ascii "00" ++ padded 64 [] ++ zeros 7 ++ zeros 7 ++ padded 155 pre ++ padded 12 []
  let chksum := ((front ++ back).map UInt8.toNat).sum + 8 * 32
  front ++ octalDigits (octalOf 6 chksum) ++ [0, 32] ++ back

/-- An item with such a header, for a path without `./`. -/
def ustarItem (pre name : List UInt8) (size : ℕ) (typeflag : UInt8) (content : List UInt8)
    (parts : List (List UInt8)) (trail : List UInt8)
    (hheader : (ustarHeader pre name size typeflag).length = 512 ∧
      field (ustarHeader pre name size typeflag) 124 12 = octalDigits (octalOf 11 size) ++ [0] ∧
      (field (ustarHeader pre name size typeflag) 156 1 = [48] ∨
        field (ustarHeader pre name size typeflag) 156 1 = [0] ∨
        field (ustarHeader pre name size typeflag) 156 1 = [53]))
    (hcontent : content.length = if isDirHeader (ustarHeader pre name size typeflag) then 0
      else octalValue (octalOf 11 size))
    (hname : (fullName (ustarHeader pre name size typeflag)).length ≤ 255 ∧
      fullName (ustarHeader pre name size typeflag) = [slash].intercalate parts ++ trail ∧
      (trail = [] ∨ isDirHeader (ustarHeader pre name size typeflag) = true ∧ trail = [slash]))
    (hparts : (∀ part ∈ parts, IsPart part) ∧ parts ≠ []) : TarItem where
  header := ustarHeader pre name size typeflag
  content := content
  padding := List.replicate ((512 - content.length % 512) % 512) 0
  parts := parts
  size := octalValue (octalOf 11 size)
  header_length := hheader.1
  typeflag := hheader.2.2
  octal := ⟨[], octalOf 11 size, [0], hheader.2.1, by simp, by simp, rfl⟩
  content_length := hcontent
  padding_length := by simp
  name_length := hname.1
  spelled := ⟨[], trail, hname.2.1, Or.inl rfl, hname.2.2⟩
  clean := hparts.1
  root h := absurd h hparts.2

instance (part : List UInt8) : Decidable (IsPart part) := by
  unfold IsPart
  infer_instance

/-- The directory `bin`. -/
def binItem : TarItem :=
  ustarItem [] (ascii "bin/") 0 53 [] [ascii "bin"] [slash]
    (by decide +kernel) (by decide +kernel) (by decide +kernel) (by decide +kernel)

/-- The file `bin/sh` of three bytes, with its directory in the other field. -/
def shItem : TarItem :=
  ustarItem (ascii "bin") (ascii "sh") 3 48 [35, 33, 10]
    [ascii "bin", ascii "sh"] []
    (by decide +kernel) (by decide +kernel) (by decide +kernel) (by decide +kernel)

/-- The file comes before its directory. -/
def binArchive : TarArchive where
  items := [shItem, binItem]
  trailer := List.replicate 1024 0
  ended := by decide +kernel
  distinct := by decide +kernel
  leaves := by decide +kernel

theorem archive_unpacked_bin :
    bumpAllocator.Succeeds ∧ (∀ item ∈ binArchive.items, item.Plain) ∧
      binArchive.Unpacked (tarfsPopulateVfs bumpAllocator binArchive.bytes (vfsInit bumpAllocator)) := by
  have hA : bumpAllocator.Succeeds := fun _ _ => Nat.succ_ne_zero _
  have hplain : ∀ item ∈ binArchive.items, item.Plain := by
    intro item hitem
    rcases List.mem_cons.mp hitem with rfl | hitem
    · exact ⟨by decide +kernel, by decide +kernel⟩
    · rw [List.mem_singleton.mp hitem]
      exact ⟨by decide +kernel, by decide +kernel⟩
  exact ⟨hA, hplain, archive_unpacked hA binArchive hplain⟩

/-- A directory `d` that may hold 512 bytes. -/
def limitItem : TarItem :=
  ustarItem [] (ascii "d/") 512 53 [] [ascii "d"] [slash]
    (by decide +kernel) (by decide +kernel) (by decide +kernel) (by decide +kernel)

/-- A directory `e` whose name is in the other field. -/
def bareItem : TarItem :=
  ustarItem (ascii "e") [] 0 53 [] [ascii "e"] [slash]
    (by decide +kernel) (by decide +kernel) (by decide +kernel) (by decide +kernel)

/-- A directory with a limit, and a file. -/
def limitArchive : TarArchive where
  items := [limitItem, shItem]
  trailer := List.replicate 1024 0
  ended := by decide +kernel
  distinct := by decide +kernel
  leaves := by decide +kernel

/-- A directory with an empty name field. -/
def bareArchive : TarArchive where
  items := [bareItem]
  trailer := List.replicate 1024 0
  ended := by decide +kernel
  distinct := by decide +kernel
  leaves := by decide +kernel

/-- The limit on a directory is skipped like a content, and with it the next header.  An empty name field ends
the archive. -/
theorem directory_entries_misread :
    bumpAllocator.Succeeds ∧
      ¬ limitArchive.Unpacked (tarfsPopulateVfs bumpAllocator limitArchive.bytes (vfsInit bumpAllocator)) ∧
      ¬ bareArchive.Unpacked (tarfsPopulateVfs bumpAllocator bareArchive.bytes (vfsInit bumpAllocator)) := by
  refine ⟨fun _ _ => Nat.succ_ne_zero _, fun h => ?_, fun h => ?_⟩
  · have hfile := (h.file shItem (mem_cons_of_mem _ mem_cons_self) (by decide +kernel) 0).1
    exact hfile (by decide +kernel)
  · have hdir := (h.dir bareItem mem_cons_self (by decide +kernel) 0).1
    exact hdir (by decide +kernel)

end MyOs
