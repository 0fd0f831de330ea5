import MyOs.Vfs.Lookup
import MyOs.Vfs.Resolve

/-!
# Opening a file that may have to be made

`vfs_open` with `VFS_O_CREAT` reads the path with two scanners.  `vfs_resolve` follows the components;
`vfs_resolve_parent` has a buffer of its own, strips slashes from the end, splits at the last slash and cuts
the name to `VFS_NAME_MAX` bytes.  `resolveParent_eq` says that they agree on every string: the parent is
where all components but the last one lead, and the name is the last one, cut.

The call should open the node that the path leads to afterwards, or leave the tree as it was.  It does,
except when it makes the file and then cannot open it (`LeavesFile`): because the name is longer than
`VFS_NAME_MAX`, so that `vfs_resolve` refuses the path under which the cut name was made, or because there
is no memory left for the `vfs_file_t`.  Nothing removes the new file then (`open_atomic_iff`).
-/

namespace MyOs

open Lib Vfs List Function

variable {ok : List UInt8 → Prop} {A : Allocator} {s s' : Vfs} {kids : ℕ → List ℕ} {c cwd d n : ℕ}
  {name path : List UInt8}

def vfsSetCwd (s : Vfs) (node : ℕ) : Vfs := if node ≠ 0 then { s with cwd := node } else s

namespace Vfs

/-- The same tree, seen from another working directory. -/
def inDir (s : Vfs) (w : ℕ) : Vfs := { s with cwd := w }

/-- The state after a number of calls of `kmalloc`. -/
def kmallocs (A : Allocator) (s : Vfs) : ℕ → Vfs
  | 0 => s
  | k + 1 => ((s.kmallocs A k).kmalloc A).2

/-- The call of `kmalloc` after `k` others succeeds. -/
def Grants (A : Allocator) (s : Vfs) (k : ℕ) : Prop := ((s.kmallocs A k).kmalloc A).1 ≠ 0

instance (A : Allocator) (s : Vfs) (k : ℕ) : Decidable (s.Grants A k) := by
  unfold Grants
  infer_instance

/-- One node was added: the file `c`, as the first child of `d`. -/
structure FileAdded (kids : ℕ → List ℕ) (s s' : Vfs) (d c : ℕ) (name : List UInt8) : Prop where
  root : s'.root = s.root
  cwd : s'.cwd = s.cwd
  new : ¬ s.InTree kids c
  file : ∃ namePtr data, s'.node c =
    { name := name, namePtr := namePtr, type := .file, size := 0, data := data, ops := .memfsFile,
      parent := d, children := 0, next := (s.node d).children }
  dir : s'.node d = { s.node d with children := c }
  others : ∀ n, s.InTree kids n → n ≠ d → s'.node n = s.node n

end Vfs

/-- The file that was opened is the node the path leads to now: one that was there before, in the same
tree, or one new file in the directory that the components before the last one lead to.  If no file was
opened, the tree is as it was. -/
def OpensAtomically (kids : ℕ → List ℕ) (s : Vfs) (path : List UInt8) (r : ℕ × Vfs) : Prop :=
  (r.1 ≠ 0 ∧ (r.2.file r.1).node = vfsResolvePath r.2 path ∧ vfsResolvePath r.2 path ≠ 0 ∧
    (SameTree kids s r.2 ∧ vfsResolvePath r.2 path = vfsResolvePath s path ∨
      ∃ dirs last d, components path = dirs ++ [last] ∧
        follow s kids (startOf s path s.cwd) dirs = some d ∧
        FileAdded kids s r.2 d (vfsResolvePath r.2 path) last)) ∨
  (r.1 = 0 ∧ SameTree kids s r.2)

/-- What it takes to make the file: `last` is the last component, and the others lead to the directory `d`,
which does not have the name that `last` is cut to. -/
structure MakesFile (A : Allocator) (kids : ℕ → List ℕ) (s : Vfs) (path : List UInt8)
    (dirs : List (List UInt8)) (last : List UInt8) (d : ℕ) : Prop where
  split : components path = dirs ++ [last]
  short : path.length < vfsPathMax
  parent : follow s kids (startOf s path s.cwd) dirs = some d
  dir : (s.node d).type = .dir ∧ (s.node d).ops.creates
  name : last ≠ [dot] ∧ last ≠ [dot, dot]
  unused : ∀ k ∈ kids d, (s.node k).name ≠ last.take vfsNameMax
  memory : s.Grants A 0 ∧ s.Grants A 1 ∧ s.Grants A 2

/-- The file can be made, but not opened. -/
def LeavesFile (A : Allocator) (kids : ℕ → List ℕ) (s : Vfs) (path : List UInt8) : Prop :=
  ∃ dirs last d, MakesFile A kids s path dirs last d ∧ (vfsNameMax < last.length ∨ ¬ s.Grants A 3)

/-! ## The two scanners -/

lemma lastSlash_eq_some {l : List UInt8} {i : ℕ} (h : lastSlash l = some i) :
    l = l.take i ++ slash :: l.drop (i + 1) := by
  induction l generalizing i with
  | nil => cases h
  | cons x xs ih =>
    simp only [lastSlash] at h
    cases hxs : lastSlash xs with
    | some j =>
      simp only [hxs, Option.some.injEq] at h
      subst h
      rw [take_succ_cons, drop_succ_cons, cons_append, ← ih hxs]
    | none =>
      simp only [hxs] at h
      split_ifs at h with hx
      cases h
      simp [hx]

lemma components_slashes {rest : List UInt8} (h : ∀ b ∈ rest, b = slash) : components rest = [] := by
  induction rest with
  | nil => exact components_nil
  | cons b rest ih =>
    rw [h b mem_cons_self, components_slash]
    exact ih fun x hx => h x (mem_cons_of_mem _ hx)

lemma components_append_slashes {rest : List UInt8} (h : ∀ b ∈ rest, b = slash) (p : List UInt8) :
    components (p ++ rest) = components p := by
  cases rest with
  | nil => rw [append_nil]
  | cons b rest =>
    have hrest := components_slashes fun x hx => h x (mem_cons_of_mem b hx)
    rw [h b mem_cons_self, components_append_slash, hrest, append_nil]

/-- The buffer of `vfs_resolve_parent`: the path without the slashes at its end. -/
def parentBuffer (path : List UInt8) : List UInt8 :=
  path.take 1 ++ (path.drop 1).rdropWhile (· == slash)

lemma components_parentBuffer (path : List UInt8) : components (parentBuffer path) = components path := by
  have hsplit : path = parentBuffer path ++ (path.drop 1).rtakeWhile (· == slash) := by
    rw [parentBuffer, append_assoc, rdropWhile_append_rtakeWhile, take_append_drop]
  have hslashes : ∀ b ∈ (path.drop 1).rtakeWhile (· == slash), b = slash := by
    intro b hb
    simpa using mem_rtakeWhile_imp hb
  conv_rhs => rw [hsplit, components_append_slashes hslashes]

lemma head?_parentBuffer (path : List UInt8) : (parentBuffer path).head? = path.head? := by
  cases path with
  | nil => rfl
  | cons b path => rfl

lemma parentBuffer_ne_append_slash {l : List UInt8} (hl : l ≠ []) : parentBuffer path ≠ l ++ [slash] := by
  intro h
  have hlast := rdropWhile_last_not (· == slash) (path.drop 1)
  rw [parentBuffer] at h
  generalize (path.drop 1).rdropWhile (· == slash) = q at h hlast
  cases q using reverseRecOn with
  | nil =>
    have hlen := congrArg length h
    have hpos := length_pos_iff.mpr hl
    simp only [append_nil, length_take, length_append, length_singleton] at hlen
    omega
  | append_singleton q b =>
    rw [← append_assoc] at h
    have hb := (append_inj' h rfl).2
    simp only [cons.injEq, and_true] at hb
    simp [hb] at hlast

/-- **`vfs_resolve_parent` agrees with `vfs_resolve`.**  It splits the last component off, and resolves
the others. -/
lemma Vfs.Shape.resolveParent_eq (hs : Shape ok s kids) (hcwd : cwd = 0 ∨ s.InTree kids cwd)
    (hne : path ≠ []) (hlen : path.length < vfsPathMax) :
    ∃ dirs full, slash ∉ full ∧ components path = dirs ++ components full ∧
      (full = [] → components path = []) ∧
      vfsResolveParent s path cwd =
        (follow s kids (startOf s path cwd) dirs).map fun d => (d, full.take vfsNameMax) := by
  have hguard : ¬ (path.length = 0 ∨ path.length ≥ vfsPathMax) := by
    rw [not_or, length_eq_zero_iff]
    exact ⟨hne, not_le.mpr hlen⟩
  have hhead := head?_parentBuffer path
  have hcomp := components_parentBuffer path
  have hend : ∀ l ≠ [], parentBuffer path ≠ l ++ [slash] := fun l hl => parentBuffer_ne_append_slash hl
  rw [vfsResolveParent, if_neg hguard]
  dsimp only
  rw [← parentBuffer]
  generalize parentBuffer path = tmp at hhead hcomp hend ⊢
  cases hlast : lastSlash tmp with
  | none =>
    have hslash := slash_not_mem_of_lastSlash_eq_none hlast
    refine ⟨[], tmp, hslash, hcomp.symm, ?_, ?_⟩
    · rintro rfl
      rw [← hcomp, components_nil]
    · have hstart : path.head? ≠ some slash := by
        rw [← hhead]
        exact fun h => hslash (mem_of_head? h)
      rw [startOf, if_neg hstart, ite_not]
      rfl
  | some i =>
    have hsplit := lastSlash_eq_some hlast
    have hslash := slash_not_mem_drop_lastSlash hlast
    cases i with
    | zero =>
      have hcut : tmp = slash :: tmp.drop 1 := hsplit
      have hall : components path = components (tmp.drop 1) := by
        rw [← hcomp, hcut, components_slash]
        rfl
      refine ⟨[], tmp.drop 1, hslash, hall, fun hfull => ?_, ?_⟩
      · rw [hall, hfull, components_nil]
      · have hstart : path.head? = some slash := by
          rw [← hhead, hcut]
          rfl
        rw [startOf, if_pos hstart]
        rfl
    | succ i =>
      have hfront : tmp.take (i + 1) ≠ [] := by
        intro hnil
        have hlength := congrArg length hsplit
        have hle := congrArg length hnil
        simp only [length_append, length_cons, length_drop, length_take, length_nil] at hlength hle
        omega
      refine ⟨components (tmp.take (i + 1)), tmp.drop (i + 2), hslash, ?_, fun hfull => ?_, ?_⟩
      · rw [← hcomp, ← components_append_slash, ← hsplit]
      · rw [hfull] at hsplit
        exact absurd hsplit (hend _ hfront)
      · have hstart : startOf s (tmp.take (i + 1)) cwd = startOf s path cwd := by
          have hhead' : (tmp.take (i + 1)).head? = path.head? := by
            rw [← hhead]
            conv_rhs => rw [hsplit, head?_append_of_ne_nil _ hfront]
          rw [startOf, startOf, hhead']
        rw [← hstart, ← hs.nonNull_resolve hcwd, nonNull]
        dsimp only
        split_ifs <;> rfl

/-! ## Making the file -/

namespace Vfs.Shape

lemma anyName (hs : Shape ok s kids) : Shape (fun _ => True) s kids :=
  { hs with named := fun _ _ _ => trivial }

lemma createNode_eq (h0 : s.Grants A 0) (h1 : s.Grants A 1) {type : NodeType} {ops : NodeOps}
    {data : NodeData} :
    vfsCreateNode A s name type ops data =
      ((s.kmalloc A).1, (s.kmallocs A 2).modify (s.kmalloc A).1 fun _ =>
        { name := name, namePtr := ((s.kmallocs A 1).kmalloc A).1, type := type, size := 0, data := data,
          ops := ops, parent := 0, children := 0, next := 0 }) := by
  rw [vfsCreateNode]
  exact (if_neg h0).trans (if_neg h1)

lemma createFile_some (hs : Shape ok s kids) (hok : ok name) (hd : s.InTree kids d)
    (hdir : (s.node d).type = .dir) (hnew : ∀ k ∈ kids d, (s.node k).name ≠ name)
    (hmem : s.Grants A 0 ∧ s.Grants A 1 ∧ s.Grants A 2) {r : Option ℕ × Vfs}
    (hr : memfsCreate A s d name .file = r) :
    ∃ c, r.1 = some c ∧ c ≠ 0 ∧ FileAdded kids s r.2 d c name ∧
      Shape ok r.2 (update kids d (c :: kids d)) ∧
      r.2.calls = (s.kmallocs A 3).calls ∧ r.2.live = (s.kmallocs A 3).live := by
  obtain ⟨h0, h1, h2⟩ := hmem
  have hs1 := hs.kmalloc A
  have hfind := hs.findChild_eq_zero hd hnew
  have hguard : ¬ (d = 0 ∨ (s.node d).type ≠ .dir) := by simp [hs.ne_zero hd, hdir]
  rw [memfsCreate, if_neg hguard, if_neg (not_not.mpr hfind), if_neg (by decide)] at hr
  replace hr := (if_neg h0).symm.trans hr
  rw [memfsAddNode] at hr
  -- the node, which is loose
  generalize hcreated : vfsCreateNode A (s.kmalloc A).2 name .file .memfsFile
    (.memfs (s.kmalloc A).1 ⟨0, 0, 0⟩) = created at hr
  obtain ⟨hs2, hsame, hloose⟩ :=
    hs1.createNode (hs.record_unowned h0 (by simp [NodeData.frees])) hcreated
  have heq := hcreated.symm.trans (createNode_eq h1 h2)
  have hnull : created.1 ≠ 0 := by
    rw [heq]
    exact h1
  obtain ⟨hloose, hname⟩ := hloose hnull
  have hsame : SameTree kids s created.2 := (sameTree_kmalloc A s kids).trans hsame
  -- which becomes the first child
  obtain ⟨hadd, hs3⟩ := hs2.addChild_new hsame hloose hnull hname hok hd hdir hnew
  rw [if_neg hnull, hadd] at hr
  subst hr
  have hcd : created.1 ≠ d := fun h => hloose.out (h ▸ hsame.inTree.mpr hd)
  refine ⟨created.1, rfl, hnull,
    ⟨hsame.root, hsame.cwd, fun h => hloose.out (hsame.inTree.mpr h), ?_, ?_, ?_⟩, hs3, ?_, ?_⟩
  · refine ⟨((s.kmallocs A 2).kmalloc A).1, .memfs (s.kmalloc A).1 ⟨0, 0, 0⟩, ?_⟩
    have hnode : created.2.node created.1 =
        { name := name, namePtr := ((s.kmallocs A 2).kmalloc A).1, type := .file, size := 0,
          data := .memfs (s.kmalloc A).1 ⟨0, 0, 0⟩, ops := .memfsFile, parent := 0, children := 0,
          next := 0 } := by
      rw [heq]
      dsimp only
      rw [modify_self]
      rfl
    dsimp only
    rw [Vfs.attach, modify_of_ne _ hcd, modify_self, hnode, hsame.node d hd]
  · dsimp only
    rw [Vfs.attach, modify_self, modify_of_ne _ hcd.symm, hsame.node d hd]
  · intro n hn hnd
    have hnc : n ≠ created.1 := fun h => hloose.out (hsame.inTree.mpr (h ▸ hn))
    dsimp only
    rw [Vfs.attach, modify_of_ne _ hnd, modify_of_ne _ hnc, hsame.node n hn]
  · rw [heq]
    rfl
  · rw [heq]
    rfl

lemma createFile_none (hs : Shape ok s kids) (hd : s.InTree kids d)
    (h : ¬ ((∀ k ∈ kids d, (s.node k).name ≠ name) ∧ s.Grants A 0 ∧ s.Grants A 1 ∧ s.Grants A 2))
    {r : Option ℕ × Vfs} (hr : memfsCreate A s d name .file = r) : r.1 = none ∧ SameTree kids s r.2 := by
  subst hr
  have hrefl := SameTree.refl kids s
  have hsame := sameTree_kmalloc A s kids
  rw [memfsCreate]
  split_ifs with hguard hfind hdir
  · exact ⟨rfl, hrefl⟩
  · exact ⟨rfl, hrefl⟩
  · exact absurd hdir (by decide)
  have hnew : ∀ k ∈ kids d, (s.node k).name ≠ name :=
    fun k hk => hs.name_ne_of_findChild hd (not_not.mp hfind) hk
  dsimp only
  split_ifs with h0
  · exact ⟨rfl, hsame⟩
  rw [memfsAddNode, vfsCreateNode]
  -- one of the two other blocks is missing
  by_cases h1 : s.Grants A 1
  · have h2 : ((s.kmallocs A 2).kmalloc A).1 = 0 := not_not.mp fun h2 => h ⟨hnew, h0, h1, h2⟩
    have hnull : ¬ ((s.kmalloc A).2.kmalloc A).1 = 0 := h1
    have hcopy : (((s.kmalloc A).2.kmalloc A).2.kmalloc A).1 = 0 := h2
    simp only [if_neg hnull, if_pos hcopy, if_true]
    refine ⟨trivial, ((hsame.trans (sameTree_kmalloc A _ kids)).trans (sameTree_kmalloc A _ kids)).trans ?_⟩
    exact (sameTree_kfree (.heap _) _ kids).trans (sameTree_kfree (.heap _) _ kids)
  · have hnull : ((s.kmalloc A).2.kmalloc A).1 = 0 := not_not.mp h1
    simp only [if_pos hnull]
    exact ⟨trivial, (hsame.trans (sameTree_kmalloc A _ kids)).trans (sameTree_kfree (.heap _) _ kids)⟩

end Vfs.Shape

/-! ## The path to the new file -/

namespace Vfs.FileAdded

section

variable (h : FileAdded kids s s' d c name)
include h

lemma name_eq (hn : s.InTree kids n) : (s'.node n).name = (s.node n).name := by
  by_cases hnd : n = d
  · rw [hnd, h.dir]
  · rw [h.others n hn hnd]

lemma parent_eq (hn : s.InTree kids n) : (s'.node n).parent = (s.node n).parent := by
  by_cases hnd : n = d
  · rw [hnd, h.dir]
  · rw [h.others n hn hnd]

lemma new_name : (s'.node c).name = name := by
  obtain ⟨namePtr, data, hnode⟩ := h.file
  rw [hnode]

lemma step_eq (hnew : ∀ k ∈ kids d, (s.node k).name ≠ name) (hn : s.InTree kids n) {part : List UInt8}
    {m : ℕ} (hstep : componentStep s kids n part = some m) :
    componentStep s' (update kids d (c :: kids d)) n part = some m := by
  rw [componentStep] at hstep ⊢
  rw [h.parent_eq hn]
  split_ifs at hstep ⊢ with hdot hdots hparent hlen
  · exact hstep
  · exact hstep
  · exact hstep
  · -- the child of that name is not the new one
    have hold : ∀ e, ((kids e).find? fun k => (s'.node k).name == part) =
        (kids e).find? fun k => (s.node k).name == part :=
      fun e => find?_congr fun k hk => by rw [h.name_eq (InTree.of_mem hk)]
    by_cases hnd : n = d
    · subst hnd
      have hne : name ≠ part := by
        rintro rfl
        have hname := find?_some hstep
        exact hnew m (mem_of_find?_eq_some hstep) (by simpa using hname)
      rw [update_self, find?_cons, h.new_name, beq_false_of_ne hne]
      exact (hold n).trans hstep
    · rw [update_of_ne hnd, hold]
      exact hstep

lemma follow_eq (hs : Shape ok s kids) (hnew : ∀ k ∈ kids d, (s.node k).name ≠ name)
    (hn : s.InTree kids n) {parts : List (List UInt8)} (hparts : ∀ part ∈ parts, part ≠ []) {m : ℕ}
    (hfollow : follow s kids n parts = some m) :
    follow s' (update kids d (c :: kids d)) n parts = some m := by
  induction parts generalizing n with
  | nil => exact hfollow
  | cons part parts ih =>
    rw [follow, foldlM_cons] at hfollow ⊢
    obtain ⟨next, hstep, hrest⟩ := Option.bind_eq_some_iff.mp hfollow
    have hpart : follow s kids n [part] = some next := by
      simpa [follow] using hstep
    have hnext := hs.follow_inTree hn (by simpa using hparts part mem_cons_self) hpart
    refine Option.bind_eq_some_iff.mpr ⟨next, h.step_eq hnew hn hstep, ?_⟩
    exact ih hnext (fun q hq => hparts q (mem_cons_of_mem _ hq)) hrest

lemma step_new (hdots : name ≠ [dot] ∧ name ≠ [dot, dot]) (hlen : name.length ≤ vfsNameMax) :
    componentStep s' (update kids d (c :: kids d)) d name = some c := by
  rw [componentStep, if_neg hdots.1, if_neg hdots.2, if_pos hlen, update_self, find?_cons,
    h.new_name, beq_self_eq_true]

lemma not_sameTree (hd : s.InTree kids d) (hfirst : (s.node d).children ≠ c) :
    ¬ SameTree kids s s' := by
  intro hsame
  have hnode := hsame.node d hd
  rw [h.dir] at hnode
  exact hfirst (congrArg VfsNode.children hnode).symm

lemma first_ne (hs : Shape ok s kids) (hd : s.InTree kids d) (hc : c ≠ 0) :
    (s.node d).children ≠ c := by
  intro hchildren
  have hmem := hs.children_mem hd (hchildren ▸ hc)
  rw [hchildren] at hmem
  exact h.new (InTree.of_mem hmem)

end

end Vfs.FileAdded

/-! ## Any working directory -/

section Cwd

variable (s) (w : ℕ)

lemma resolveLoop_inDir (fuel cur : ℕ) (p : List UInt8) :
    resolveLoop (s.inDir w) fuel cur p = resolveLoop s fuel cur p := by
  induction fuel generalizing cur p with
  | zero => rfl
  | succ fuel ih =>
    have hpart : ∀ seg, resolvePart (s.inDir w) cur seg = resolvePart s cur seg := fun _ => rfl
    simp only [resolveLoop, ih, hpart]

lemma resolve_inDir (path : List UInt8) (cwd : ℕ) :
    vfsResolve (s.inDir w) path cwd = vfsResolve s path cwd := by
  have hroot : (s.inDir w).root = s.root := rfl
  simp only [vfsResolve, resolveLoop_inDir, hroot]

lemma resolveParent_inDir (path : List UInt8) (cwd : ℕ) :
    vfsResolveParent (s.inDir w) path cwd = vfsResolveParent s path cwd := by
  have hroot : (s.inDir w).root = s.root := rfl
  simp only [vfsResolveParent, resolve_inDir, hroot]

lemma kfree_inDir (ptr : KPtr) : (s.inDir w).kfree ptr = (s.kfree ptr).inDir w := by
  cases ptr with
  | heap p =>
    have hlive : (s.inDir w).live = s.live := rfl
    rw [Vfs.kfree, Vfs.kfree, hlive]
    split_ifs <;> rfl
  | archive off => rfl

lemma foldl_kfree_inDir (ptrs : List KPtr) :
    ptrs.foldl Vfs.kfree (s.inDir w) = (ptrs.foldl Vfs.kfree s).inDir w := by
  induction ptrs generalizing s with
  | nil => rfl
  | cons ptr ptrs ih => rw [foldl_cons, kfree_inDir, ih, foldl_cons]

lemma kmalloc_inDir : (s.inDir w).kmalloc A = ((s.kmalloc A).1, (s.kmalloc A).2.inDir w) := rfl

lemma createNode_inDir (name : List UInt8) (type : NodeType) (ops : NodeOps) (data : NodeData) :
    vfsCreateNode A (s.inDir w) name type ops data =
      ((vfsCreateNode A s name type ops data).1, (vfsCreateNode A s name type ops data).2.inDir w) := by
  simp only [vfsCreateNode, kmalloc_inDir, kfree_inDir]
  split_ifs <;> rfl

lemma addChild_inDir (d c : ℕ) :
    vfsAddChild (s.inDir w) d c = (vfsAddChild s d c).map fun t => t.inDir w := by
  have hfind : vfsFindChild (s.inDir w) = vfsFindChild s := rfl
  have hnode : (s.inDir w).node = s.node := rfl
  simp only [vfsAddChild, hfind, hnode]
  split_ifs <;> rfl

lemma release_inDir (data : NodeData) : data.release (s.inDir w) = (data.release s).inDir w := by
  cases data with
  | null => rfl
  | memfs addr file => exact kfree_inDir s w (.heap addr)
  | tarfs addr file => exact kfree_inDir s w (.heap addr)

lemma addNode_inDir (d : ℕ) (name : List UInt8) (type : NodeType) (ops : NodeOps) (data : NodeData) :
    memfsAddNode A (s.inDir w) d name type ops data =
      ((memfsAddNode A s d name type ops data).1, (memfsAddNode A s d name type ops data).2.inDir w) := by
  simp only [memfsAddNode, createNode_inDir, release_inDir, addChild_inDir]
  generalize vfsCreateNode A s name type ops data = created
  split_ifs
  · rfl
  · cases vfsAddChild created.2 d created.1 with
    | none => exact congrArg _ (foldl_kfree_inDir created.2 w _)
    | some t => rfl

lemma create_inDir (d : ℕ) (name : List UInt8) (type : NodeType) :
    memfsCreate A (s.inDir w) d name type =
      ((memfsCreate A s d name type).1, (memfsCreate A s d name type).2.inDir w) := by
  have hfind : vfsFindChild (s.inDir w) = vfsFindChild s := rfl
  have hnode : (s.inDir w).node = s.node := rfl
  simp only [memfsCreate, addNode_inDir, kmalloc_inDir, hfind, hnode]
  split_ifs <;> rfl

end Cwd

lemma Vfs.SameTree.inDir {u : Vfs} (h : SameTree kids s u) (w : ℕ) :
    SameTree kids (s.inDir w) (u.inDir w) :=
  ⟨h.root, rfl, h.node⟩

lemma Vfs.FileAdded.inDir {u : Vfs} (h : FileAdded kids s u d c name) (w : ℕ) :
    FileAdded kids (s.inDir w) (u.inDir w) d c name :=
  ⟨h.root, rfl, h.new, h.file, h.dir, h.others⟩

/-! ## `vfs_create` -/

variable {w : ℕ} {dirs : List (List UInt8)} {last : List UInt8}

lemma eq_of_take_eq {l : List UInt8} (h : last.take vfsNameMax = l) (hl : l.length < vfsNameMax) :
    last = l := by
  have hlen := congrArg length h
  rw [length_take] at hlen
  rw [← h, take_of_length_le (by omega)]

lemma MakesFile.follow_eq_none (hm : MakesFile A kids s path dirs last d) :
    follow s kids (startOf s path s.cwd) (components path) = none := by
  have hstep : componentStep s kids d last = none := by
    rw [componentStep, if_neg hm.name.1, if_neg hm.name.2]
    split_ifs with hlen
    · rw [find?_eq_none]
      intro k hk
      have hunused := hm.unused k hk
      rw [take_of_length_le hlen] at hunused
      simpa using hunused
    · rfl
  rw [hm.split, follow_append, hm.parent]
  simp [follow, hstep]

namespace Vfs.Shape

section

variable (hs : Shape ok s kids) (hw : s.InTree kids w)
include hs hw

lemma nonNull_resolvePath (path : List UInt8) :
    nonNull (vfsResolvePath (s.inDir w) path) = follow s kids (startOf s path w) (components path) := by
  rw [vfsResolvePath, resolve_inDir]
  exact hs.nonNull_resolve (Or.inr hw) path

/-- The last component of a path that `vfs_resolve_parent` accepts, and the directory it is for. -/
lemma resolveParent_split (hlen : path.length < vfsPathMax) (hne : components path ≠ []) :
    ∃ dirs last, components path = dirs ++ [last] ∧ last ≠ [] ∧
      vfsResolveParent (s.inDir w) path w =
        (follow s kids (startOf s path w) dirs).map fun d => (d, last.take vfsNameMax) := by
  have hpath : path ≠ [] := by
    rintro rfl
    exact hne components_nil
  obtain ⟨dirs, full, hslash, hsplit, hnil, hparent⟩ := hs.resolveParent_eq (Or.inr hw) hpath hlen
  have hfull : full ≠ [] := fun h => hne (hnil h)
  rw [components_of_not_mem hslash hfull] at hsplit
  exact ⟨dirs, full, hsplit, hfull, (resolveParent_inDir s w path w).trans hparent⟩

lemma create_some (hm : MakesFile A kids (s.inDir w) path dirs last d) :
    s.InTree kids d ∧ (vfsCreate A (s.inDir w) path).1 = true ∧ ∃ c u, c ≠ 0 ∧
      (vfsCreate A (s.inDir w) path).2 = u.inDir w ∧
      FileAdded kids s u d c (last.take vfsNameMax) ∧
      Shape (fun _ => True) u (update kids d (c :: kids d)) ∧
      u.calls = (s.kmallocs A 3).calls ∧ u.live = (s.kmallocs A 3).live := by
  have hne : components path ≠ [] := by simp [hm.split]
  obtain ⟨dirs', last', hsplit, hlast, hparent⟩ := hs.resolveParent_split hw hm.short hne
  obtain ⟨rfl, hlasts⟩ := append_inj' (hsplit.symm.trans hm.split) rfl
  obtain rfl : last' = last := by simpa using hlasts
  have hfollow : follow s kids (startOf s path w) dirs' = some d := hm.parent
  have hd : s.InTree kids d :=
    hs.follow_inTree (startOf_inTree (Or.inr hw) path) (ne_nil_of_split hsplit) hfollow
  have hguard : ¬ (d = 0 ∨ ((s.inDir w).node d).type ≠ .dir) := by
    simpa [hs.ne_zero hd] using hm.dir.1
  have hname : ¬ (last'.take vfsNameMax = [] ∨ last'.take vfsNameMax = [dot] ∨
      last'.take vfsNameMax = [dot, dot]) := by
    rintro (h | h | h)
    · exact hlast (eq_of_take_eq h (by decide))
    · exact hm.name.1 (eq_of_take_eq h (by decide))
    · exact hm.name.2 (eq_of_take_eq h (by decide))
  have hcreate : vfsCreate A (s.inDir w) path =
      ((memfsCreate A s d (last'.take vfsNameMax) .file).1.isSome,
        (memfsCreate A s d (last'.take vfsNameMax) .file).2.inDir w) := by
    rw [vfsCreate, vfsMake, show (s.inDir w).cwd = w from rfl, hparent, hfollow]
    dsimp only [Option.map_some]
    rw [if_neg hguard, if_neg hname, if_neg (not_not.mpr hm.dir.2), create_inDir]
  obtain ⟨c, hc, hnull, hadded, hshape, hcalls, hlive⟩ :=
    hs.anyName.createFile_some trivial hd hm.dir.1 hm.unused hm.memory rfl
  rw [hcreate]
  exact ⟨hd, by rw [hc]; rfl, c, _, hnull, rfl, hadded, hshape, hcalls, hlive⟩

lemma create_none (hnot : ¬ ∃ dirs last d, MakesFile A kids (s.inDir w) path dirs last d)
    (hzero : vfsResolvePath (s.inDir w) path = 0) :
    (vfsCreate A (s.inDir w) path).1 = false ∧
      SameTree kids (s.inDir w) (vfsCreate A (s.inDir w) path).2 := by
  have hsame := SameTree.refl kids (s.inDir w)
  have hstart := startOf_inTree (Or.inr hw) path
  have hne : components path ≠ [] := by
    intro hnil
    have hfollow := hs.nonNull_resolvePath hw path
    rw [hzero, hnil] at hfollow
    cases hfollow
  rw [vfsCreate, vfsMake, show (s.inDir w).cwd = w from rfl]
  by_cases hlen : path.length < vfsPathMax
  case neg =>
    have hnone : vfsResolveParent (s.inDir w) path w = none := if_pos (Or.inr (not_lt.mp hlen))
    rw [hnone]
    exact ⟨rfl, hsame⟩
  obtain ⟨dirs, last, hsplit, hlast, hparent⟩ := hs.resolveParent_split hw hlen hne
  rw [hparent]
  cases hfollow : follow s kids (startOf s path w) dirs with
  | none => exact ⟨rfl, hsame⟩
  | some d =>
    have hd : s.InTree kids d := hs.follow_inTree hstart (ne_nil_of_split hsplit) hfollow
    dsimp only [Option.map_some]
    split_ifs with hguard hname hcreates
    · exact ⟨rfl, hsame⟩
    · exact ⟨rfl, hsame⟩
    · -- all that can be missing is the name or memory
      rw [create_inDir]
      simp only [not_or, not_not] at hguard hname
      have hmissing : ¬ ((∀ k ∈ kids d, (s.node k).name ≠ last.take vfsNameMax) ∧ s.Grants A 0 ∧
          s.Grants A 1 ∧ s.Grants A 2) := by
        rintro ⟨hunused, hmemory⟩
        refine hnot ⟨dirs, last, d, hsplit, hlen, hfollow, ⟨hguard.2, hcreates⟩, ⟨?_, ?_⟩, hunused, hmemory⟩
        · rintro rfl
          exact hname.2.1 rfl
        · rintro rfl
          exact hname.2.2 rfl
      obtain ⟨hfail, hkept⟩ := hs.createFile_none hd hmissing rfl
      rw [hfail]
      exact ⟨rfl, hkept.inDir w⟩
    · exact ⟨rfl, hsame⟩

end

end Vfs.Shape

/-! ## `vfs_open` -/

/-- The second half of `vfs_open`: the tree stays, and the path leads to the node it led to. -/
lemma Vfs.Shape.open_spec (hs : Shape ok s kids) (hw : s.InTree kids w) {t : Vfs} {flags : UInt32}
    (hn : n ≠ 0) (hnode : vfsOpenNode A t path flags = (n, s.inDir w))
    (hresolve : vfsResolvePath (s.inDir w) path = n) {r : ℕ × Vfs} (hr : vfsOpen A t path flags = r) :
    SameTree kids (s.inDir w) r.2 ∧
      (r.1 = 0 ↔ (s.node n).type = .dir ∧ flags &&& vfsOWronly ≠ 0 ∨ (s.kmalloc A).1 = 0) ∧
      (r.1 ≠ 0 → (r.2.file r.1).node = n ∧ vfsResolvePath r.2 path = n) := by
  subst hr
  have hsame := (sameTree_kmalloc A s kids).inDir w
  rw [vfsOpen, hnode]
  dsimp only
  rw [if_neg hn]
  split_ifs with hdir hfile
  · exact ⟨⟨rfl, rfl, fun _ _ => rfl⟩, ⟨fun _ => Or.inl hdir, fun _ => rfl⟩, fun h => absurd rfl h⟩
  · exact ⟨hsame, ⟨fun _ => Or.inr hfile, fun _ => hfile⟩, fun h => absurd hfile h⟩
  · refine ⟨⟨hsame.root, hsame.cwd, hsame.node⟩, ⟨fun h => absurd h hfile, ?_⟩, fun _ => ⟨?_, ?_⟩⟩
    · rintro (h | h)
      · exact absurd h hdir
      · exact h
    · dsimp only
      rw [update_self]
    · -- the table of open files is no part of the tree
      set v : Vfs := { (s.kmalloc A).2 with
        file := update (s.kmalloc A).2.file (s.kmalloc A).1 ⟨n, 0, flags⟩ } with hv
      have hs' : Shape ok v kids :=
        (hs.kmalloc A).frame ⟨rfl, rfl, fun _ _ => rfl⟩ (hs.kmalloc A).live (hs.kmalloc A).null
      have hpath : vfsResolvePath (v.inDir w) path = vfsResolvePath (s.inDir w) path :=
        nonNull_inj ((hs'.nonNull_resolvePath hw path).trans (hs.nonNull_resolvePath hw path).symm)
      exact hpath.trans hresolve

lemma Vfs.FileAdded.trans {u : Vfs} (h : FileAdded kids s s' d c name) (hd : s.InTree kids d)
    (hsame : SameTree (update kids d (c :: kids d)) s' u) : FileAdded kids s u d c name := by
  have hin : ∀ n, s.InTree kids n → s'.InTree (update kids d (c :: kids d)) n := by
    rintro n (rfl | ⟨e, hn⟩)
    · exact Or.inl h.root.symm
    · exact Or.inr ⟨e, Shape.mem_update_cons.mpr (Or.inr hn)⟩
  have hc : s'.InTree (update kids d (c :: kids d)) c :=
    Or.inr ⟨d, Shape.mem_update_cons.mpr (Or.inl ⟨rfl, rfl⟩)⟩
  refine ⟨hsame.root.trans h.root, hsame.cwd.trans h.cwd, h.new, ?_, ?_, fun n hn hnd => ?_⟩
  · rw [hsame.node c hc]
    exact h.file
  · rw [hsame.node d (hin d hd), h.dir]
  · rw [hsame.node n (hin n hn), h.others n hn hnd]

namespace Vfs.Shape

variable {flags : UInt32}

lemma open_old (hs : Shape ok s kids) (hw : s.InTree kids w)
    (hres : vfsResolvePath (s.inDir w) path ≠ 0) :
    OpensAtomically kids (s.inDir w) path (vfsOpen A (s.inDir w) path flags) ∧
      ¬ LeavesFile A kids (s.inDir w) path := by
  constructor
  · have hnode : vfsOpenNode A (s.inDir w) path flags = (vfsResolvePath (s.inDir w) path, s.inDir w) :=
      if_neg fun h => hres h.1
    obtain ⟨hsame, -, hfile⟩ := hs.open_spec hw hres hnode rfl rfl
    by_cases hnull : (vfsOpen A (s.inDir w) path flags).1 = 0
    · exact Or.inr ⟨hnull, hsame⟩
    · obtain ⟨hopen, hpath⟩ := hfile hnull
      exact Or.inl ⟨hnull, hopen.trans hpath.symm, hpath ▸ hres, Or.inl ⟨hsame, hpath⟩⟩
  · rintro ⟨dirs, last, d, hm, -⟩
    have hfollow := hs.nonNull_resolvePath hw path
    have hnone : follow s kids (startOf s path w) (components path) = none := hm.follow_eq_none
    rw [hnone] at hfollow
    exact hres (nonNull_eq_none.mp hfollow)

lemma open_new (hs : Shape ok s kids) (hw : s.InTree kids w) (hflags : flags &&& vfsOCreat ≠ 0)
    (hm : MakesFile A kids (s.inDir w) path dirs last d) :
    OpensAtomically kids (s.inDir w) path (vfsOpen A (s.inDir w) path flags) ↔
      last.length ≤ vfsNameMax ∧ (s.inDir w).Grants A 3 := by
  have hzero : vfsResolvePath (s.inDir w) path = 0 := by
    refine nonNull_eq_none.mp ((hs.nonNull_resolvePath hw path).trans ?_)
    exact hm.follow_eq_none
  obtain ⟨hd, hcreated, c, u, hc, hu, hadded, hshape, hcalls, hlive⟩ := hs.create_some hw hm
  have hfirst := hadded.first_ne hs hd hc
  have hnode : vfsOpenNode A (s.inDir w) path flags = (vfsResolvePath (u.inDir w) path, u.inDir w) := by
    rw [vfsOpenNode, if_pos ⟨hzero, hflags⟩]
    dsimp only
    rw [if_pos hcreated, hu]
  have hwu : u.InTree (update kids d (c :: kids d)) w := by
    rcases hw with rfl | ⟨e, hw⟩
    · exact Or.inl hadded.root.symm
    · exact Or.inr ⟨e, mem_update_cons.mpr (Or.inr hw)⟩
  -- where the path leads now
  have hdirs := hadded.follow_eq hs hm.unused (startOf_inTree (Or.inr hw) path)
    (ne_nil_of_split hm.split) hm.parent
  have hresolve : nonNull (vfsResolvePath (u.inDir w) path) =
      componentStep u (update kids d (c :: kids d)) d last := by
    have hstart : startOf u path w = startOf s path w := by rw [startOf, startOf, hadded.root]
    rw [hshape.nonNull_resolvePath hwu, hm.split, follow_append, hstart, hdirs]
    simp [follow]
  have hkmalloc : (u.kmalloc A).1 = ((s.kmallocs A 3).kmalloc A).1 := by
    simp only [Vfs.kmalloc, hcalls, hlive]
  by_cases hlen : last.length ≤ vfsNameMax
  · -- the new file is found
    rw [take_of_length_le hlen] at hadded
    rw [hadded.step_new hm.name hlen, nonNull_eq_some] at hresolve
    obtain ⟨hsame, hnull, hfile⟩ := hshape.open_spec hwu hc (hresolve.1 ▸ hnode) hresolve.1 rfl
    have htype : (u.node c).type ≠ .dir := by
      obtain ⟨namePtr, data, hnode⟩ := hadded.file
      rw [hnode]
      exact NodeType.noConfusion
    have hnull : (vfsOpen A (s.inDir w) path flags).1 = 0 ↔ ¬ s.Grants A 3 := by
      rw [hnull, Grants, not_not, hkmalloc]
      exact or_iff_right fun h => htype h.1
    have hadded' := (hadded.inDir w).trans hd hsame
    rw [OpensAtomically, and_iff_right hlen]
    constructor
    · rintro (⟨hopen, -⟩ | ⟨-, hkept⟩)
      · exact not_not.mp fun h => hopen (hnull.mpr h)
      · exact absurd hkept (hadded'.not_sameTree hd hfirst)
    · intro hgrant
      have hopen : (vfsOpen A (s.inDir w) path flags).1 ≠ 0 := fun h => hnull.mp h hgrant
      obtain ⟨hopened, hpath⟩ := hfile hopen
      refine Or.inl ⟨hopen, hopened.trans hpath.symm, hpath ▸ hc, Or.inr ⟨dirs, last, d, hm.split,
        hm.parent, ?_⟩⟩
      rw [hpath]
      exact hadded'
  · -- nothing is found under the long name
    have hlong : componentStep u (update kids d (c :: kids d)) d last = none := by
      rw [componentStep, if_neg hm.name.1, if_neg hm.name.2, if_neg hlen]
    rw [hlong, nonNull_eq_none] at hresolve
    have hopen : vfsOpen A (s.inDir w) path flags = (0, u.inDir w) := by
      rw [vfsOpen, hnode, hresolve]
      rfl
    rw [hopen, OpensAtomically]
    constructor
    · rintro (⟨hne, -⟩ | ⟨-, hkept⟩)
      · exact absurd rfl hne
      · exact absurd hkept ((hadded.inDir w).not_sameTree hd hfirst)
    · exact fun h => absurd h.1 hlen

end Vfs.Shape

lemma Vfs.Shape.open_inDir_iff (hs : Shape ok s kids) (hw : s.InTree kids w) (A : Allocator)
    (path : List UInt8) {flags : UInt32} (hflags : flags &&& vfsOCreat ≠ 0) :
    OpensAtomically kids (s.inDir w) path (vfsOpen A (s.inDir w) path flags) ↔
      ¬ LeavesFile A kids (s.inDir w) path := by
  by_cases hres : vfsResolvePath (s.inDir w) path = 0
  case neg =>
    exact And.elim iff_of_true (hs.open_old hw hres)
  by_cases hmakes : ∃ dirs last d, MakesFile A kids (s.inDir w) path dirs last d
  · obtain ⟨dirs, last, d, hm⟩ := hmakes
    rw [hs.open_new hw hflags hm]
    constructor
    · rintro ⟨hlen, hgrant⟩ ⟨dirs', last', d', hm', hbad⟩
      obtain ⟨-, hlasts⟩ := append_inj' (hm'.split.symm.trans hm.split) rfl
      obtain rfl : last' = last := by simpa using hlasts
      rcases hbad with hlong | hfail
      · exact absurd hlen (not_le.mpr hlong)
      · exact hfail hgrant
    · intro hleaves
      refine ⟨?_, ?_⟩
      · exact not_lt.mp fun hlong => hleaves ⟨dirs, last, d, hm, Or.inl hlong⟩
      · exact not_not.mp fun hfail => hleaves ⟨dirs, last, d, hm, Or.inr hfail⟩
  · obtain ⟨hcreated, hsame⟩ := hs.create_none hw hmakes hres
    have hnode : vfsOpenNode A (s.inDir w) path flags = (0, (vfsCreate A (s.inDir w) path).2) := by
      rw [vfsOpenNode, if_pos ⟨hres, hflags⟩]
      dsimp only
      rw [hcreated]
      rfl
    have hopen : vfsOpen A (s.inDir w) path flags = (0, (vfsCreate A (s.inDir w) path).2) := by
      rw [vfsOpen, hnode]
      rfl
    refine iff_of_true (Or.inr ?_) ?_
    · rw [hopen]
      exact ⟨rfl, hsame⟩
    · rintro ⟨dirs, last, d, hm, -⟩
      exact hmakes ⟨dirs, last, d, hm⟩

/-- **Opening with `VFS_O_CREAT`.**  In every well-formed tree, from every working directory, for every path
and every pattern of allocation failures: the call opens what the path then leads to, or leaves the tree as
it was, unless it makes the file and cannot open it. -/
theorem open_atomic_iff (hs : Shape ok s kids) (hcwd : cwd = 0 ∨ s.InTree kids cwd) (A : Allocator)
    (path : List UInt8) {flags : UInt32} (hflags : flags &&& vfsOCreat ≠ 0) :
    OpensAtomically kids (vfsSetCwd s cwd) path (vfsOpen A (vfsSetCwd s cwd) path flags) ↔
      ¬ LeavesFile A kids (vfsSetCwd s cwd) path := by
  have hdir : ∃ w, s.InTree kids w ∧ vfsSetCwd s cwd = s.inDir w := by
    by_cases hnull : cwd = 0
    · refine ⟨s.root, Shape.root_inTree s kids, ?_⟩
      rw [vfsSetCwd, if_neg (not_not.mpr hnull), ← hs.cwd]
      rfl
    · exact ⟨cwd, hcwd.resolve_left hnull, if_pos hnull⟩
  obtain ⟨w, hw, heq⟩ := hdir
  rw [heq]
  exact hs.open_inDir_iff hw A path hflags

theorem open_atomic_b : ∃ kids, Shape PathName rwTree kids ∧
    OpensAtomically kids (vfsSetCwd rwTree 0) (ascii "/rw/b")
      (vfsOpen bumpAllocator (vfsSetCwd rwTree 0) (ascii "/rw/b") vfsOCreat) := by
  obtain ⟨kids, hs⟩ := rwTree_shape
  refine ⟨kids, hs, (open_atomic_iff hs (Or.inl rfl) bumpAllocator _ (by decide)).mpr ?_⟩
  rintro ⟨dirs, last, d, hm, hbad⟩
  have hsplit : components (ascii "/rw/b") =
      [ascii "rw"] ++ [ascii "b"] := by decide
  have hlast := (append_inj' (hm.split.symm.trans hsplit) rfl).2
  rcases hbad with hlong | hfail
  · rw [(cons.inj hlast).1] at hlong
    exact absurd hlong (by decide)
  · exact hfail (by decide +kernel)

/-- An allocator that has no memory after a number of calls. -/
def exhaustedAfter (calls : ℕ) : Allocator where
  addr k live := if calls ≤ k ∧ 0 ∉ live then 0 else bumpAllocator.addr k live
  fresh k live := by
    split_ifs with h
    · exact h.2
    · exact bumpAllocator.fresh k live

/-- A name of 256 bytes is made with 255 of them and not found; without memory for the `vfs_file_t`, which
is the twelfth block, `/rw/b` is made and not opened.  Both calls return null, and the first child of `/rw`
is another one than before. -/
theorem open_leaves_file : ∃ kids, Shape PathName rwTree kids ∧
    (¬ OpensAtomically kids rwTree (ascii "/rw/" ++ List.replicate 256 97)
      (vfsOpen bumpAllocator rwTree (ascii "/rw/" ++ List.replicate 256 97) vfsOCreat)) ∧
    ¬ OpensAtomically kids rwTree (ascii "/rw/b")
      (vfsOpen (exhaustedAfter 11) rwTree (ascii "/rw/b") vfsOCreat) := by
  obtain ⟨kids, hs⟩ := rwTree_shape
  have hdir : rwTree.InTree kids 3 := by
    have hresolve : vfsResolve rwTree (ascii "/rw") rwTree.cwd = 3 := by decide +kernel
    have hin := hs.resolve_inTree
      (show vfsResolve rwTree (ascii "/rw") rwTree.cwd ≠ 0 by rw [hresolve]; decide)
    rwa [hresolve] at hin
  -- null, and the directory has changed
  have hbad : ∀ (path : List UInt8) (r : ℕ × Vfs), r.1 = 0 →
      (r.2.node 3).children ≠ (rwTree.node 3).children → ¬ OpensAtomically kids rwTree path r := by
    rintro path r hnull hchildren (⟨hopen, -⟩ | ⟨-, hsame⟩)
    · exact hopen hnull
    · exact hchildren (by rw [hsame.node 3 hdir])
  exact ⟨kids, hs, hbad _ _ (by decide +kernel) (by decide +kernel),
    hbad _ _ (by decide +kernel) (by decide +kernel)⟩

end MyOs
